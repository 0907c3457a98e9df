import Wsmr.Filter

/-!
# Variable-name classes (`src/varnames.rs`)

A class is a list of names; only membership is ever asked.
-/

namespace Wsmr

open Text

def sessionSpecific : List Str :=
  ["XDG_SEAT".toList, "XDG_SEAT_PATH".toList, "XDG_SESSION_ID".toList, "XDG_SESSION_PATH".toList,
    "XDG_VTNR".toList]

def alwaysExport : List Str :=
  ["PATH".toList, "XDG_CURRENT_DESKTOP".toList, "XDG_MENU_PREFIX".toList,
    "XDG_SESSION_DESKTOP".toList, "XDG_SESSION_CLASS".toList, "XDG_SESSION_TYPE".toList]

def neverExportBase : List Str :=
  ["PWD".toList, "LS_COLORS".toList, "INVOCATION_ID".toList, "SHLVL".toList, "SHELL".toList,
    "TERM".toList, "COLORTERM".toList, "TERM_SESSION_TYPE".toList, "NOTIFY_SOCKET".toList]

def alwaysUnsetBase : List Str := ["DISPLAY".toList, "WAYLAND_DISPLAY".toList]

def alwaysCleanupBase : List Str :=
  ["DISPLAY".toList, "LANG".toList, "PATH".toList, "WAYLAND_DISPLAY".toList,
    "XCURSOR_SIZE".toList, "XCURSOR_THEME".toList, "XDG_CURRENT_DESKTOP".toList,
    "XDG_MENU_PREFIX".toList, "XDG_SESSION_DESKTOP".toList, "XDG_SESSION_CLASS".toList,
    "XDG_SESSION_TYPE".toList, "NOTIFY_SOCKET".toList]

def neverCleanup : List Str :=
  ["SSH_AGENT_LAUNCHER".toList, "SSH_AUTH_SOCK".toList, "SSH_AGENT_PID".toList]

def unionSession (base : List Str) : List Str := base ++ sessionSpecific

def neverExport : List Str := unionSession neverExportBase
def alwaysUnset : List Str := unionSession alwaysUnsetBase
def alwaysCleanup : List Str := unionSession alwaysCleanupBase

/-- Everything cleanup always scrubs is a name the filter keeps. -/
theorem keepName_alwaysCleanup : ∀ k ∈ alwaysCleanup, keepName k = true := by
  unfold alwaysCleanup unionSession alwaysCleanupBase sessionSpecific
  repeat rw [String.toList_ofList]
  decide

theorem keepName_neverCleanup : ∀ k ∈ neverCleanup, keepName k = true := by
  unfold neverCleanup
  repeat rw [String.toList_ofList]
  decide

theorem alwaysCleanup_not_never : ∀ k ∈ alwaysCleanup, k ∉ neverCleanup := by
  unfold alwaysCleanup neverCleanup unionSession alwaysCleanupBase sessionSpecific
  repeat rw [String.toList_ofList]
  decide

end Wsmr
