import Wsmr.App.Daemon
import Wsmr.Units.Quote

/-!
# Replies of the app-daemon, run by a shell

The shell reads the words of a reply as the daemon has quoted them (`reads_shlexQuote`), so that it starts
the commands that were resolved (`shellRun_appReply`). What a direct launch does besides, redirecting the output
of a silenced scope, is not in the reply.
-/

namespace Wsmr

open Text

/-! ## Quoting -/

theorem bare_of_plain {s : Str} (h : ∀ c ∈ s, isPlain c = true) : Shell.Bare s :=
  Shell.bare_of_forall h plain_special

/-- **A quoted word** is read as the word. -/
theorem reads_shlexQuote (w : Str) : Shell.Reads w (shlexQuote w) := by
  rcases shlexQuote_cases w with h | ⟨hne, hplain, h⟩
  · rw [h]
    exact Shell.reads_quoted w
  · rw [h]
    exact Shell.reads_bare (bare_of_plain hplain) hne

/-! ## Lines -/

section
variable {sep : Str}

theorem intercalate_append : ∀ {a b : List Str}, a ≠ [] → b ≠ [] →
    List.intercalate sep (a ++ b) = List.intercalate sep a ++ sep ++ List.intercalate sep b
  | [], _, h, _ => absurd rfl h
  | [x], b, _, hb => by
    obtain ⟨y, ys, rfl⟩ := List.exists_cons_of_ne_nil hb
    simp [List.intercalate_cons_cons]
  | x :: y :: a, b, _, hb => by
    have ih := intercalate_append (List.cons_ne_nil y a) hb
    simp only [List.cons_append, List.intercalate_cons_cons] at ih ⊢
    rw [ih]
    simp

/-- Joining lines that were joined. -/
theorem intercalate_flatten : ∀ {lss : List (List Str)}, (∀ ls ∈ lss, ls ≠ []) →
    List.intercalate sep (lss.map (List.intercalate sep)) = List.intercalate sep lss.flatten
  | [], _ => rfl
  | [ls], _ => by simp
  | ls :: ms :: lss, h => by
    rw [List.forall_mem_cons] at h
    have ih := intercalate_flatten h.2
    have hne : (ms :: lss).flatten ≠ [] := by
      obtain ⟨m, ms', hms⟩ := List.exists_cons_of_ne_nil (h.2 ms List.mem_cons_self)
      simp [hms]
    rw [List.flatten_cons, intercalate_append h.1 hne, ← ih]
    simp only [List.map_cons, List.intercalate_cons_cons]

end

/-- The tokens of a reply, with their texts. -/
def wordItems (argv : List Str) : List (Shell.Token × Str) := argv.map fun w => (.word w, shlexQuote w)

def replyItems (argvs : List (List Str)) : List (Shell.Token × Str) :=
  match argvs with
  | [argv] => (.word "exec".toList, "exec".toList) :: wordItems argv
  | _ => (argvs.map fun argv => wordItems argv ++ [(.amp, ['&'])]).flatten ++ [(.word "wait".toList, "wait".toList)]

theorem readsToken_wordItems {argv : List Str} : ∀ p ∈ wordItems argv, Shell.ReadsToken p.1 p.2 := by
  intro p hp
  obtain ⟨w, -, rfl⟩ := List.mem_map.1 hp
  exact Shell.readsToken_word (reads_shlexQuote w)

theorem readsToken_replyItems {argvs : List (List Str)} : ∀ p ∈ replyItems argvs, Shell.ReadsToken p.1 p.2 := by
  have hbare : ∀ {w : Str}, w ≠ [] → (∀ c ∈ w, isPlain c = true) → Shell.ReadsToken (.word w) w := fun hne hplain =>
    Shell.readsToken_word (Shell.reads_bare (bare_of_plain hplain) hne)
  intro p hp
  unfold replyItems at hp
  split at hp
  · rcases List.mem_cons.1 hp with rfl | hp
    · exact hbare (by decide) (forall_mem_of_all (by decide))
    · exact readsToken_wordItems p hp
  · rcases List.mem_append.1 hp with hp | hp
    · obtain ⟨items, hitems, hp⟩ := List.mem_flatten.1 hp
      obtain ⟨argv, -, rfl⟩ := List.mem_map.1 hitems
      rcases List.mem_append.1 hp with hp | hp
      · exact readsToken_wordItems p hp
      · obtain rfl := List.mem_singleton.1 hp
        exact Shell.readsToken_amp
    · obtain rfl := List.mem_singleton.1 hp
      exact hbare (by decide) (forall_mem_of_all (by decide))

theorem shlexJoin_eq (argv : List Str) : shlexJoin argv = List.intercalate [' '] ((wordItems argv).map Prod.snd) := by
  have hblank : " ".toList = [' '] := by decide
  unfold shlexJoin wordItems
  rw [hblank, List.map_map]
  rfl

theorem items_ne_nil {argv : List Str} (h : argv ≠ []) : (wordItems argv).map Prod.snd ≠ [] := by
  simpa [wordItems] using h

/-- The line of commands in the background. -/
theorem background_eq {argvs : List (List Str)} (h : ∀ argv ∈ argvs, argv ≠ []) :
    List.intercalate " ".toList (argvs.map (fun a => shlexJoin a ++ " &".toList) ++ ["wait".toList]) =
      List.intercalate [' '] (((argvs.map fun argv => wordItems argv ++ [(Shell.Token.amp, ['&'])]).flatten ++
        [(Shell.Token.word "wait".toList, "wait".toList)]).map Prod.snd) := by
  have hblank : " ".toList = [' '] := by decide
  have hamp : " &".toList = [' '] ++ ['&'] := by decide
  have hjoin : ∀ argv ∈ argvs, shlexJoin argv ++ " &".toList =
      List.intercalate [' '] ((wordItems argv).map Prod.snd ++ [['&']]) := fun argv hargv => by
    rw [intercalate_append (items_ne_nil (h argv hargv)) (by simp), shlexJoin_eq, hamp,
      List.intercalate_singleton, List.append_assoc]
  have hlines : argvs.map (fun a => shlexJoin a ++ " &".toList) ++ ["wait".toList] =
      (argvs.map (fun argv => (wordItems argv).map Prod.snd ++ [['&']]) ++ [["wait".toList]]).map
        (List.intercalate [' ']) := by
    rw [List.map_append, List.map_map, List.map_congr_left hjoin, List.map_singleton, List.intercalate_singleton]
    rfl
  have hflat : (argvs.map (fun argv => (wordItems argv).map Prod.snd ++ [['&']]) ++ [["wait".toList]]).flatten =
      ((argvs.map fun argv => wordItems argv ++ [(Shell.Token.amp, ['&'])]).flatten ++
        [(Shell.Token.word "wait".toList, "wait".toList)]).map Prod.snd := by
    rw [List.flatten_append, List.map_append, List.map_flatten, List.map_map]
    simp [Function.comp_def]
  rw [hblank, hlines, intercalate_flatten, hflat]
  intro ls hls
  rcases List.mem_append.1 hls with hls | hls
  · obtain ⟨argv, -, rfl⟩ := List.mem_map.1 hls
    simp
  · rw [List.mem_singleton.1 hls]
    simp

theorem appReply_eq : ∀ {argvs : List (List Str)}, (∀ argv ∈ argvs, argv ≠ []) →
    appReply argvs = List.intercalate [' '] ((replyItems argvs).map Prod.snd)
  | [], h => background_eq h
  | [argv], h => by
    have hexec : "exec ".toList = "exec".toList ++ [' '] := by decide
    obtain ⟨first, rest, hcons⟩ := List.exists_cons_of_ne_nil (items_ne_nil (h argv List.mem_cons_self))
    have hsingle : appReply [argv] = "exec ".toList ++ shlexJoin argv := rfl
    have hwords : replyItems [argv] = (.word "exec".toList, "exec".toList) :: wordItems argv := rfl
    rw [hsingle, hwords, shlexJoin_eq, hexec, List.map_cons, hcons, List.intercalate_cons_cons]
  | _ :: _ :: _, h => background_eq h

/-! ## Commands -/

/-- What the shell does when there is a program `systemd-run`, and nothing of its own has that name. -/
def shellRun (line : Str) : Option Shell.Run := Shell.run (· = "systemd-run".toList) line

theorem commandsFrom_background (ts : List Shell.Token) : ∀ {argvs : List (List Str)}, (∀ argv ∈ argvs, argv ≠ []) →
    Shell.commandsFrom [] [] ((argvs.map fun argv => argv.map Shell.Token.word ++ [.amp]).flatten ++ ts) =
      (Shell.commandsFrom [] [] ts).map ((argvs.map fun argv => ⟨argv, [], true⟩) ++ ·)
  | [], _ => by simp
  | argv :: argvs, h => by
    rw [List.forall_mem_cons] at h
    obtain ⟨w, ws, rfl⟩ := List.exists_cons_of_ne_nil h.1
    have ih := commandsFrom_background ts h.2
    rw [List.map_cons, List.flatten_cons, List.append_assoc, List.append_assoc, Shell.commandsFrom_words]
    simp only [List.nil_append, List.cons_append, Shell.commandsFrom, ih, Option.map_map]
    rfl

theorem execute_background {external : Str → Bool} (cs : List Shell.Command) : ∀ {argvs : List (List Str)}
    (pending : Bool), (∀ argv ∈ argvs, ∃ name args, argv = name :: args ∧ name ≠ "exec".toList ∧
      name ≠ "wait".toList ∧ external name = true) →
    Shell.execute external pending ((argvs.map fun argv => ⟨argv, [], true⟩) ++ cs) =
      (Shell.execute external (pending || !argvs.isEmpty) cs).map fun r =>
        { r with started := argvs.map (fun argv => ⟨argv, []⟩) ++ r.started }
  | [], pending, _ => by simp
  | argv :: argvs, pending, h => by
    rw [List.forall_mem_cons] at h
    obtain ⟨⟨name, args, rfl, hexec, hwait, hext⟩, hrest⟩ := h
    have ih := execute_background cs true hrest
    simp only [List.map_cons, List.cons_append, Shell.execute, if_neg hexec, if_neg hwait, hext, if_true,
      Bool.or_true, ih, Option.map_map]
    simp [Function.comp_def]

theorem map_fst_wordItems (argv : List Str) : (wordItems argv).map Prod.fst = argv.map Shell.Token.word := by
  unfold wordItems
  rw [List.map_map]
  rfl

theorem commands_background (argvs : List (List Str)) (h : ∀ argv ∈ argvs, argv ≠ []) :
    Shell.commandsFrom [] [] (((argvs.map fun argv => wordItems argv ++ [(Shell.Token.amp, ['&'])]).flatten ++
      [(Shell.Token.word "wait".toList, "wait".toList)]).map Prod.fst) =
        some (argvs.map (fun argv => ⟨argv, [], true⟩) ++ [⟨["wait".toList], [], false⟩]) := by
  have htokens : ((argvs.map fun argv => wordItems argv ++ [(Shell.Token.amp, ['&'])]).flatten ++
      [(Shell.Token.word "wait".toList, "wait".toList)]).map Prod.fst =
        (argvs.map fun argv => argv.map Shell.Token.word ++ [.amp]).flatten ++ [.word "wait".toList] := by
    rw [List.map_append, List.map_flatten, List.map_map]
    simp [Function.comp_def, map_fst_wordItems]
  rw [htokens, commandsFrom_background _ h]
  rfl

/-- **A reply**, run by a shell: no output is redirected. -/
theorem shellRun_appReply {argvs : List (List Str)} (h : ∀ argv ∈ argvs, ∃ args, argv = "systemd-run".toList :: args) :
    shellRun (appReply argvs) = some ⟨argvs.map fun argv => ⟨argv, []⟩, true⟩ := by
  have hname : "systemd-run".toList ≠ "exec".toList ∧ "systemd-run".toList ≠ "wait".toList := by decide
  have hne : ∀ argv ∈ argvs, argv ≠ [] := fun argv hargv => by
    obtain ⟨args, rfl⟩ := h argv hargv
    exact List.cons_ne_nil _ _
  have hbackground : (Shell.commandsFrom [] [] (((argvs.map fun argv =>
      wordItems argv ++ [(Shell.Token.amp, ['&'])]).flatten ++
        [(Shell.Token.word "wait".toList, "wait".toList)]).map Prod.fst)).bind
          (Shell.execute (· = "systemd-run".toList) false) = some ⟨argvs.map fun argv => ⟨argv, []⟩, true⟩ := by
    rw [commands_background argvs hne, Option.bind_some, execute_background]
    · simp [Shell.execute]
    · intro argv hargv
      obtain ⟨args, rfl⟩ := h argv hargv
      exact ⟨_, args, rfl, hname.1, hname.2, decide_eq_true rfl⟩
  unfold shellRun Shell.run
  rw [appReply_eq hne, Shell.lex_intercalate readsToken_replyItems]
  match argvs with
  | [] => exact hbackground
  | [argv] =>
    obtain ⟨args, rfl⟩ := h argv List.mem_cons_self
    have hcommands : Shell.commandsFrom [] [] ((replyItems ["systemd-run".toList :: args]).map Prod.fst) =
        some [⟨"exec".toList :: "systemd-run".toList :: args, [], false⟩] := by
      have htokens : (replyItems ["systemd-run".toList :: args]).map Prod.fst =
          ("exec".toList :: "systemd-run".toList :: args).map Shell.Token.word ++ [] := by
        rw [List.append_nil, List.map_cons, ← map_fst_wordItems]
        rfl
      rw [htokens, Shell.commandsFrom_words]
      rfl
    simp only [Option.bind_eq_bind, Option.bind_some, hcommands]
    unfold Shell.execute
    simp
  | _ :: _ :: _ => exact hbackground

/-- Whether the output to a descriptor is thrown away. -/
def nulled (p : Shell.Started) (fd : Nat) : Bool := p.output? fd = some "/dev/null".toList

/-- What a shell has started. -/
def ofShell (r : Shell.Run) : Effect := ⟨r.started.map fun p => ⟨p.argv, nulled p 1, nulled p 2⟩, r.waited⟩

theorem ofShell_plain (argvs : List (List Str)) (waited : Bool) :
    ofShell ⟨argvs.map fun argv => ⟨argv, []⟩, waited⟩ = ⟨argvs.map fun argv => ⟨argv, false, false⟩, waited⟩ := by
  unfold ofShell
  rw [List.map_map]
  rfl

/-- A reply could silence what it starts. -/
example : (shellRun "exec systemd-run 'a b' >/dev/null 2> /dev/null".toList).map ofShell =
    some ⟨[⟨["systemd-run".toList, "a b".toList], true, true⟩], true⟩ := by decide

theorem handleApp_eq {cli : List Str → Except Str (Option AppOpts)}
    {resolve : AppOpts → Except Error (List (List Str))}
    {args : List Str} {opts : AppOpts} (hcli : cli ("wsmr".toList :: args) = .ok (some opts)) :
    handleApp cli resolve args = (resolve opts).map appReply := by
  unfold handleApp
  rw [hcli]

section
variable {host : Host} {terminal : TermOpts → Except Error (List Str × List Str)} {hex : Nat → Str} {opts : AppOpts}
  {direct : Effect}

theorem shellRun_appReply_iff {argvs : List (List Str)} (hres : resolveApp host terminal hex opts = .ok argvs)
    (hlaunch : launch host terminal hex opts = .ok direct) :
    (shellRun (appReply argvs)).map ofShell = some direct ↔ opts.unitType = .service ∨ opts.silent = none := by
  unfold launch at hlaunch
  rw [hres] at hlaunch
  obtain rfl := Except.ok.inj hlaunch
  obtain ⟨hne, hall⟩ := resolveApp_ok hres
  simp only [shellRun_appReply hall, Option.map_some, Option.some.injEq, ofShell_plain, Effect.mk.injEq, and_true,
    List.map_inj_left]
  obtain ⟨argv, hargv⟩ := List.exists_mem_of_ne_nil _ hne
  constructor
  · intro hsame
    exact configure_eq_iff.1 (hsame argv hargv).symm
  · intro hcond argv' _
    exact (configure_eq_iff.2 hcond).symm

/-- **The daemon's reply** has the effect of the launch unless a scope is to be silenced. -/
theorem reply_runs_as_launch_iff {cli : List Str → Except Str (Option AppOpts)} {args : List Str}
    (hcli : cli ("wsmr".toList :: args) = .ok (some opts)) (hlaunch : launch host terminal hex opts = .ok direct) :
    (∃ reply, handleApp cli (resolveApp host terminal hex) args = .ok reply ∧
      (shellRun reply).map ofShell = some direct) ↔ opts.unitType = .service ∨ opts.silent = none := by
  cases hres : resolveApp host terminal hex opts with
  | error e =>
    unfold launch at hlaunch
    rw [hres] at hlaunch
    cases hlaunch
  | ok argvs =>
    have hreply : handleApp cli (resolveApp host terminal hex) args = .ok (appReply argvs) := by
      rw [handleApp_eq hcli, hres]
      rfl
    simp only [hreply, Except.ok.injEq, exists_eq_left', shellRun_appReply_iff hres hlaunch]

end

/-- A host with one program, and no terminal. -/
def trueHost : Host := ⟨fun _ => none, fun _ => none, (· = "/usr/bin/true".toList), fun _ => none⟩

def noTerminal (_ : TermOpts) : Except Error (List Str × List Str) := .error (.resolve "no terminal found".toList)

def trueHex (_ : Nat) : Str := "0badcafe".toList

/-- `app -S both -- /usr/bin/true` -/
def trueWords : List Str := ["app".toList, "-S".toList, "both".toList, "--".toList, "/usr/bin/true".toList]

/-- The type is from `UWSM_APP_UNIT_TYPE`, or the default. -/
def trueOpts (unitType : UnitType) : AppOpts :=
  ⟨["/usr/bin/true".toList], "a".toList, unitType, false, none, none, none, [], some .both⟩

def trueCli (unitType : UnitType) (words : List Str) : Except Str (Option AppOpts) :=
  if words = "wsmr".toList :: trueWords then .ok (some (trueOpts unitType)) else .error "unexpected argument".toList

theorem reply_runs_as_launch_iff_service : ∃ direct,
    launch trueHost noTerminal trueHex (trueOpts .service) = .ok direct ∧
      ∃ reply, handleApp (trueCli .service) (resolveApp trueHost noTerminal trueHex) trueWords = .ok reply ∧
        (shellRun reply).map ofShell = some direct :=
  ⟨_, rfl, (reply_runs_as_launch_iff (if_pos rfl) rfl).2 (Or.inl rfl)⟩

/-- The output of a scope goes to null, but not when the daemon is asked for it. -/
theorem silenced_scope_heard : ∃ direct,
    launch trueHost noTerminal trueHex (trueOpts .scope) = .ok direct ∧
      ¬ ∃ reply, handleApp (trueCli .scope) (resolveApp trueHost noTerminal trueHex) trueWords = .ok reply ∧
        (shellRun reply).map ofShell = some direct := by
  refine ⟨_, rfl, ?_⟩
  rintro ⟨reply, hreply, hsame⟩
  rw [handleApp_eq (if_pos rfl)] at hreply
  cases hres : resolveApp trueHost noTerminal trueHex (trueOpts .scope) with
  | error e => rw [hres] at hreply; cases hreply
  | ok argvs =>
    rw [hres] at hreply
    obtain rfl := Except.ok.inj hreply
    rcases (shellRun_appReply_iff hres rfl).1 hsame with hservice | hnone
    · cases hservice
    · cases hnone

/-! ## One line for a reply -/

/-- What `send` writes. -/
def sent (reply : Str) : Str := reply ++ ['\n']

theorem splitOnce_sent {reply : Str} : splitOnce '\n' (sent reply) = some (reply, []) ↔ '\n' ∉ reply :=
  ⟨fun h => (splitOnce_eq_some h).2, fun h => splitOnce_append [] h⟩

theorem newline_mem_appReply {argvs : List (List Str)} :
    '\n' ∈ appReply argvs ↔ ∃ argv ∈ argvs, ∃ w ∈ argv, '\n' ∈ w := by
  have hblank : '\n' ∉ " ".toList := by decide
  have hamp : '\n' ∉ " &".toList := by decide
  have hwait : '\n' ∉ "wait".toList := by decide
  have hexec : '\n' ∉ "exec ".toList := by decide
  unfold appReply
  split
  · rename_i argv
    rw [List.mem_append, newline_mem_shlexJoin]
    simp only [hexec, false_or, List.mem_singleton, exists_eq_left]
  · rw [mem_intercalate hblank]
    simp only [List.mem_append, List.mem_map, List.mem_singleton]
    constructor
    · rintro ⟨l, ⟨argv, hargv, rfl⟩ | rfl, hmem⟩
      · rcases List.mem_append.1 hmem with hmem | hmem
        · exact ⟨argv, hargv, newline_mem_shlexJoin.1 hmem⟩
        · exact absurd hmem hamp
      · exact absurd hmem hwait
    · rintro ⟨argv, hargv, hmem⟩
      exact ⟨_, Or.inl ⟨argv, hargv, rfl⟩, List.mem_append_left _ (newline_mem_shlexJoin.2 hmem)⟩

theorem newline_mem_shquote {s : Str} : '\n' ∈ shquote s ↔ '\n' ∈ s := by
  rw [shquote, newline_mem_shlexJoin]
  simp only [List.mem_singleton, exists_eq_left]

theorem newline_mem_error {before text after : Str} (hbefore : '\n' ∉ before) (hafter : '\n' ∉ after) :
    '\n' ∈ "error ".toList ++ shquote (before ++ text) ++ after ↔ '\n' ∈ text := by
  have herror : '\n' ∉ "error ".toList := by decide
  simp only [List.mem_append, newline_mem_shquote, herror, hbefore, hafter, false_or, or_false]

/-- A client that reads one line has the whole reply, and leaves nothing. -/
def OneLine (reply : Option Str) : Prop :=
  ∀ r, reply = some r → '\n' ∉ r ∧ splitOnce '\n' (sent r) = some (r, [])

theorem oneLine_some {r : Str} : OneLine (some r) ↔ '\n' ∉ r := by
  constructor
  · exact fun h => (h r rfl).1
  · intro h r' hr
    obtain rfl := Option.some.inj hr
    exact ⟨h, splitOnce_sent.2 h⟩

section
variable (cli : List Str → Except Str (Option AppOpts)) (resolve : AppOpts → Except Error (List (List Str)))

/-- No text that a reply is made of has a newline: the words of the request, the error of the command line or of
resolving, or the words that were resolved. -/
def SingleLine : Request → Prop
  | .noArgs => True
  | .stop => True
  | .ping => True
  | .invalid args => ∀ w ∈ args, '\n' ∉ w
  | .app args =>
    match cli ("wsmr".toList :: args) with
    | .error e => '\n' ∉ e
    | .ok none => True
    | .ok (some opts) =>
      match resolve opts with
      | .error e => '\n' ∉ e.toStr
      | .ok argvs => ∀ argv ∈ argvs, ∀ w ∈ argv, '\n' ∉ w

theorem oneLine_ok {handle : List Str → Except Error Str} {args : List Str} {out : Str} (h : handle args = .ok out) :
    OneLine (answer handle (.app args)) ↔ '\n' ∉ out := by
  rw [answer, h]
  exact oneLine_some

theorem oneLine_error {handle : List Str → Except Error Str} {args : List Str} {e : Error}
    (h : handle args = .error e) : OneLine (answer handle (.app args)) ↔ '\n' ∉ e.toStr := by
  have hlits : '\n' ∉ "Error: ".toList ∧ '\n' ∉ " 1".toList := by decide
  rw [answer, h]
  exact oneLine_some.trans (not_congr (newline_mem_error hlits.1 hlits.2))

section
variable {cli resolve} {args : List Str}

theorem handleApp_usage {e : Str} (h : cli ("wsmr".toList :: args) = .error e) :
    handleApp cli resolve args = .error (.invalidArg ("Invalid arguments: ".toList ++ e)) := by
  rw [handleApp, h]

theorem handleApp_other (h : cli ("wsmr".toList :: args) = .ok none) :
    handleApp cli resolve args = .error (.invalidArg "not an app command".toList) := by
  rw [handleApp, h]

theorem handleApp_app {opts : AppOpts} (h : cli ("wsmr".toList :: args) = .ok (some opts)) :
    handleApp cli resolve args = (resolve opts).map appReply := by
  rw [handleApp, h]

end

theorem newline_mem_usage {e : Str} :
    '\n' ∈ (Error.invalidArg ("Invalid arguments: ".toList ++ e)).toStr ↔ '\n' ∈ e := by
  have hinvalid : '\n' ∉ "Invalid arguments: ".toList := by decide
  show '\n' ∈ "Invalid arguments: ".toList ++ e ↔ _
  rw [List.mem_append, or_iff_right hinvalid]

theorem oneLine_app (args : List Str) :
    OneLine (answer (handleApp cli resolve) (.app args)) ↔ SingleLine cli resolve (.app args) := by
  cases hcli : cli ("wsmr".toList :: args) with
  | error e =>
    rw [SingleLine, hcli, oneLine_error (handleApp_usage hcli)]
    exact not_congr newline_mem_usage
  | ok parsed =>
    cases parsed with
    | none =>
      have hother : '\n' ∉ "not an app command".toList := by decide
      rw [SingleLine, hcli, oneLine_error (handleApp_other hcli)]
      exact iff_of_true hother trivial
    | some opts =>
      have hhandle := @handleApp_app cli resolve args opts hcli
      rw [SingleLine, hcli]
      dsimp only
      cases hresolve : resolve opts with
      | error e =>
        rw [hresolve] at hhandle
        exact oneLine_error hhandle
      | ok argvs =>
        rw [hresolve] at hhandle
        rw [oneLine_ok hhandle, newline_mem_appReply]
        simp only [not_exists, not_and]

/-- **One reply is one line** exactly when no text that it is made of has a newline. -/
theorem reply_single_line_iff (line : Str) :
    OneLine (answer (handleApp cli resolve) (request (decode line))) ↔
      SingleLine cli resolve (request (decode line)) := by
  cases request (decode line) with
  | noArgs => exact iff_of_true (oneLine_some.2 (by decide)) trivial
  | stop => exact iff_of_true (fun _ h => by cases h) trivial
  | ping => exact iff_of_true (oneLine_some.2 (by decide)) trivial
  | app args => exact oneLine_app cli resolve args
  | invalid args =>
    have hblank : '\n' ∉ " ".toList := by decide
    have hlits : '\n' ∉ "Invalid arguments: ".toList ∧ '\n' ∉ " 2".toList := by decide
    show OneLine (some _) ↔ ∀ w ∈ args, '\n' ∉ w
    rw [oneLine_some, newline_mem_error hlits.1 hlits.2, mem_intercalate hblank]
    simp only [not_exists, not_and]

end

/-- A word that is no command is quoted in the reply, with its newline. -/
theorem reply_of_two_lines : ¬ ∀ (cli : List Str → Except Str (Option AppOpts))
    (resolve : AppOpts → Except Error (List (List Str))) (line : Str),
    OneLine (answer (handleApp cli resolve) (request (decode line))) := by
  intro h
  have hone := h (fun _ => .ok none) (fun _ => .ok []) "x\ny\x00".toList
  have hrequest : request (decode "x\ny\x00".toList) = .invalid ["x\ny".toList] := by decide
  rw [hrequest] at hone
  have hnewline : '\n' ∈ "error ".toList ++ shquote ("Invalid arguments: ".toList ++
      List.intercalate " ".toList ["x\ny".toList]) ++ " 2".toList := by decide
  exact oneLine_some.1 hone hnewline

end Wsmr
