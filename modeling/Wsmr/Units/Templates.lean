import Wsmr.Lib.Text
import Wsmr.Filter

/-!
# Unit files and drop-ins (`src/units/templates.rs`)
-/

namespace Wsmr

open Text

structure UnitTemplate where
  name : Str
  body : Str

structure RenderCtx where
  binName : Str
  binPath : Str
  waitpidBin : Str

def render (body : Str) (ctx : RenderCtx) : Str :=
  replace "@BIN_NAME@".toList ctx.binName
    (replace "@WAITPID_BIN@".toList ctx.waitpidBin (replace "@BIN_PATH@".toList ctx.binPath body))

/-- A file of these lines. -/
def body (ls : List String) : Str := unlines (ls.map String.toList)

/-- `GRAPH` -/
def graph : List UnitTemplate := [
  ⟨"wayland-session-envelope@.target".toList, body [
      "[Unit]",
      "Description=Session envelope of %I Wayland compositor",
      "Documentation=man:uwsm(1) man:systemd.special(7)",
      "BindsTo=wayland-wm-env@%i.service wayland-wm@%i.service",
      "Before=wayland-wm-env@%i.service wayland-wm@%i.service",
      "PropagatesStopTo=wayland-wm@%i.service",
      "Conflicts=wayland-session-shutdown.target",
      "After=wayland-session-shutdown.target",
      "StopWhenUnneeded=yes"]⟩,
  ⟨"wayland-session-pre@.target".toList, body [
      "[Unit]",
      "Description=Preparation for session of %I Wayland compositor",
      "Documentation=man:uwsm(1) man:systemd.special(7)",
      "Requires=wayland-wm-env@%i.service",
      "BindsTo=graphical-session-pre.target",
      "Before=graphical-session-pre.target",
      "PropagatesStopTo=graphical-session-pre.target",
      "Conflicts=wayland-session-shutdown.target",
      "Before=wayland-session-shutdown.target",
      "RefuseManualStart=yes",
      "RefuseManualStop=yes",
      "StopWhenUnneeded=yes"]⟩,
  ⟨"wayland-session@.target".toList, body [
      "[Unit]",
      "Description=Session of %I Wayland compositor",
      "Documentation=man:uwsm(1) man:systemd.special(7)",
      "Requires=wayland-session-pre@%i.target wayland-wm@%i.service",
      "Wants=wayland-session-waitenv.service wayland-session-xdg-autostart@%i.target",
      "After=graphical-session-pre.target",
      "BindsTo=graphical-session.target",
      "Before=graphical-session.target",
      "PropagatesStopTo=graphical-session.target",
      "Conflicts=wayland-session-shutdown.target",
      "Before=wayland-session-shutdown.target",
      "StopWhenUnneeded=yes"]⟩,
  ⟨"wayland-session-xdg-autostart@.target".toList, body [
      "[Unit]",
      "Description=XDG Autostart for session of %I Wayland compositor",
      "Documentation=man:uwsm(1) man:systemd.special(7)",
      "PartOf=graphical-session.target",
      "After=wayland-session@%i.target graphical-session.target",
      "BindsTo=xdg-desktop-autostart.target",
      "Before=xdg-desktop-autostart.target",
      "PropagatesStopTo=xdg-desktop-autostart.target",
      "Conflicts=wayland-session-shutdown.target",
      "Before=wayland-session-shutdown.target",
      "StopWhenUnneeded=yes"]⟩,
  ⟨"wayland-session-shutdown.target".toList, body [
      "[Unit]",
      "Description=Shutdown graphical session units",
      "Documentation=man:uwsm(1) man:systemd.special(7)",
      "DefaultDependencies=no",
      "Conflicts=graphical-session-pre.target graphical-session.target xdg-desktop-autostart.target",
      "After=graphical-session-pre.target graphical-session.target xdg-desktop-autostart.target",
      "StopWhenUnneeded=yes"]⟩,
  ⟨"wayland-wm@.service".toList, body [
      "[Unit]",
      "Description=Main service for %I",
      "Documentation=man:uwsm(1)",
      "Requires=wayland-session-pre@%i.target",
      "BindsTo=wayland-session@%i.target",
      "Before=wayland-session@%i.target graphical-session.target",
      "PropagatesStopTo=wayland-session@%i.target graphical-session.target",
      "After=wayland-session-pre@%i.target graphical-session-pre.target",
      "Wants=wayland-session-envelope@%i.target",
      "OnSuccess=wayland-session-shutdown.target",
      "OnSuccessJobMode=replace-irreversibly",
      "OnFailure=wayland-session-shutdown.target",
      "OnFailureJobMode=replace-irreversibly",
      "Conflicts=wayland-session-shutdown.target",
      "Before=wayland-session-shutdown.target",
      "CollectMode=inactive-or-failed",
      "[Service]",
      "# awaits for ready state notification from compositor or child",
      "# should be issued by '@BIN_NAME@ finalize' for example",
      "Type=notify",
      "NotifyAccess=all",
      "ExecStart=@BIN_PATH@ aux exec -- %I",
      "Restart=no",
      "EnvironmentFile=-%t/@BIN_NAME@/env_session.conf",
      "TimeoutStartSec=30",
      "TimeoutStopSec=10",
      "SyslogIdentifier=@BIN_NAME@_%I",
      "Slice=session.slice"]⟩,
  ⟨"wayland-wm-env@.service".toList, body [
      "[Unit]",
      "Description=Environment preloader for %I",
      "Documentation=man:uwsm(1)",
      "BindsTo=wayland-session-pre@%i.target",
      "Before=wayland-session-pre@%i.target graphical-session-pre.target",
      "PropagatesStopTo=wayland-session-pre@%i.target",
      "Wants=wayland-session-envelope@%i.target",
      "OnSuccess=wayland-session-shutdown.target",
      "OnSuccessJobMode=replace-irreversibly",
      "OnFailure=wayland-session-shutdown.target",
      "OnFailureJobMode=replace-irreversibly",
      "Conflicts=wayland-session-shutdown.target",
      "Before=wayland-session-shutdown.target",
      "RefuseManualStart=yes",
      "RefuseManualStop=yes",
      "StopWhenUnneeded=yes",
      "CollectMode=inactive-or-failed",
      "[Service]",
      "Type=oneshot",
      "RemainAfterExit=yes",
      "ExecStart=@BIN_PATH@ aux prepare-env -- \"%I\"",
      "ExecStopPost=@BIN_PATH@ aux cleanup-env",
      "Restart=no",
      "EnvironmentFile=-%t/@BIN_NAME@/env_session.conf",
      "SyslogIdentifier=@BIN_NAME@_env-preloader",
      "Slice=session.slice"]⟩,
  ⟨"wayland-session-waitenv.service".toList, body [
      "[Unit]",
      "Description=Wait for WAYLAND_DISPLAY and other variables",
      "Documentation=man:uwsm(1)",
      "Before=graphical-session.target",
      "After=graphical-session-pre.target",
      "CollectMode=inactive-or-failed",
      "OnFailure=wayland-session-shutdown.target",
      "OnFailureJobMode=replace-irreversibly",
      "Conflicts=wayland-session-shutdown.target",
      "Before=wayland-session-shutdown.target",
      "CollectMode=inactive-or-failed",
      "[Service]",
      "Type=oneshot",
      "RemainAfterExit=no",
      "ExecStart=@BIN_PATH@ aux waitenv",
      "Restart=no",
      "TimeoutStartSec=30",
      "SyslogIdentifier=@BIN_NAME@_waitenv",
      "Slice=background.slice"]⟩,
  ⟨"wayland-session-bindpid@.service".toList, body [
      "[Unit]",
      "Description=Bind graphical session to PID %i",
      "Documentation=man:uwsm(1)",
      "OnSuccess=wayland-session-shutdown.target",
      "OnSuccessJobMode=replace-irreversibly",
      "OnFailure=wayland-session-shutdown.target",
      "OnFailureJobMode=replace-irreversibly",
      "Conflicts=wayland-session-shutdown.target",
      "Before=wayland-session-shutdown.target",
      "CollectMode=inactive-or-failed",
      "[Service]",
      "Type=exec",
      "ExecStart=/bin/sh -c \"if command -v @WAITPID_BIN@ >/dev/null; then exec @WAITPID_BIN@ -e %i; else exec @BIN_PATH@ aux waitpid %i; fi\" waitpid",
      "Restart=no",
      "SyslogIdentifier=@BIN_NAME@_bindpid",
      "Slice=background.slice"]⟩,
  ⟨"wayland-wm-app-daemon.service".toList, body [
      "[Unit]",
      "Description=Fast application argument generator",
      "Documentation=man:uwsm(1)",
      "PartOf=graphical-session.target",
      "After=graphical-session.target",
      "Conflicts=wayland-session-shutdown.target",
      "Before=wayland-session-shutdown.target",
      "CollectMode=inactive-or-failed",
      "[Service]",
      "Type=exec",
      "ExecStart=@BIN_PATH@ aux app-daemon",
      "Restart=on-failure",
      "RestartMode=direct",
      "EnvironmentFile=-%t/@BIN_NAME@/env_session.conf",
      "SyslogIdentifier=@BIN_NAME@_app-daemon",
      "Slice=session.slice"]⟩,
  ⟨"session-graphical.slice".toList, body [
      "[Unit]",
      "Description=User Graphical Session Application Slice",
      "Documentation=man:systemd.special(7)",
      "PartOf=graphical-session.target",
      "After=graphical-session.target",
      "Conflicts=wayland-session-shutdown.target",
      "Before=wayland-session-shutdown.target"]⟩,
  ⟨"app-graphical.slice".toList, body [
      "[Unit]",
      "Description=User Graphical Application Slice",
      "Documentation=man:uwsm(1) man:systemd.special(7)",
      "PartOf=graphical-session.target",
      "After=graphical-session.target",
      "Conflicts=wayland-session-shutdown.target",
      "Before=wayland-session-shutdown.target"]⟩,
  ⟨"background-graphical.slice".toList, body [
      "[Unit]",
      "Description=User Graphical Background Application Slice",
      "Documentation=man:uwsm(1) man:systemd.special(7)",
      "PartOf=graphical-session.target",
      "After=graphical-session.target",
      "Conflicts=wayland-session-shutdown.target",
      "Before=wayland-session-shutdown.target"]⟩]

/-- `TWEAKS` -/
def tweaks : List UnitTemplate := [
  ⟨"app-@autostart.service.d/slice-tweak.conf".toList, body [
      "# injected by @BIN_NAME@, do not edit",
      "[Unit]",
      "X-UWSMMark=tweaks",
      "# make autostart apps stoppable/restartable by target",
      "PartOf=xdg-desktop-autostart.target",
      "After=xdg-desktop-autostart.target",
      "[Service]",
      "# also put them in special graphical app slice",
      "Slice=app-graphical.slice",
      "EnvironmentFile=-%t/@BIN_NAME@/env_session.conf"]⟩,
  ⟨"app-flatpak-.scope.d/order-tweak.conf".toList, body [
      "# injected by @BIN_NAME@, do not edit",
      "[Unit]",
      "X-UWSMMark=tweaks",
      "# terminate with session properly",
      "PartOf=graphical-session.target",
      "After=graphical-session.target",
      "[Scope]",
      "# also put them in special graphical app slice",
      "Slice=app-graphical.slice"]⟩,
  ⟨"plasma-xdg-desktop-portal-kde.service.d/order-tweak.conf".toList, body [
      "# injected by @BIN_NAME@, do not edit",
      "[Unit]",
      "X-UWSMMark=tweaks",
      "After=graphical-session.target"]⟩]

/-! ## Drop-ins of a compositor -/

structure DropinInput where
  id : Str
  idUnitString : Str
  binPath : Str
  binName : Str
  name : Option Str
  description : Option Str
  desktopNames : List Str
  cliDesktopNames : List Str
  cliDesktopNamesExclusive : Bool
  cmdline : List Str
  cliArgs : List Str

def nonEmpty (opt : Option Str) : Option Str := opt.filter (· ≠ [])

def shlexQuote (s : Str) : Str :=
  if s = [] then "''".toList
  else if s.all fun c => isAsciiAlphanumeric c || "@%+=:,./-_".toList.contains c then s
  else "'".toList ++ s.flatMap (fun c => if [c] = "'".toList then "'\"'\"'".toList else [c]) ++ "'".toList

def shlexJoin (parts : List Str) : Str := List.intercalate " ".toList (parts.map shlexQuote)

def descSubstring (input : DropinInput) : Str :=
  List.intercalate ", ".toList
    ((nonEmpty input.name).getD input.binName :: (nonEmpty input.description).toList)

def firstIsAbsolute (input : DropinInput) : Bool := input.cmdline.head?.any fun a => "/".toList <+: a

def header (id : Str) : Str := "# injected by wsmr, do not edit\n[Unit]\nX-UWSMMark=".toList ++ id ++ "\n".toList

def execOverride (base extra : List Str) : Str :=
  "[Service]\nExecStart=\nExecStart=".toList ++ shlexJoin (base ++ extra) ++ "\n".toList

/-- The line that both drop-ins of a named or described compositor have. -/
def descriptionLine (what : Str) (input : DropinInput) : Str :=
  if (nonEmpty input.name).isSome || (nonEmpty input.description).isSome then
    "Description=".toList ++ what ++ " for ".toList ++ descSubstring input ++ "\n".toList
  else []

/-- Nothing to say, no drop-in. -/
def dropinOf (input : DropinInput) (extra : Str) : Option Str :=
  if extra = [] then none else some (header input.id ++ extra)

def desktopArgs (input : DropinInput) : List Str :=
  if input.cliDesktopNamesExclusive then
    ["-eD".toList, List.intercalate ":".toList input.cliDesktopNames]
  else if input.desktopNames ≠ [input.binName] then
    ["-D".toList, List.intercalate ":".toList input.desktopNames]
  else []

def preloaderDropin (input : DropinInput) : Option Str :=
  let args := desktopArgs input
  let abs := firstIsAbsolute input
  let override :=
    if !args.isEmpty || abs then
      execOverride [input.binPath, "aux".toList, "prepare-env".toList]
        (args ++ ["--".toList, "%I".toList] ++ if abs then input.cmdline.take 1 else [])
    else []
  dropinOf input (descriptionLine "Environment preloader".toList input ++ override)

def serviceDropin (input : DropinInput) : Option Str :=
  let svc :=
    if firstIsAbsolute input then input.cmdline
    else if !input.cliArgs.isEmpty then [] :: input.cliArgs
    else []
  let override :=
    if !svc.isEmpty then
      execOverride [input.binPath, "aux".toList, "exec".toList, "--".toList, "%I".toList] svc
    else []
  dropinOf input (descriptionLine "Main service".toList input ++ override)

end Wsmr
