import Workbench.Proofs.Workspace.Updates
import Workbench.Server

/-!
**Servers with much under way.**

The handlers of a server do not run one after the other. A handler gives way to others where it waits:
for the editor to take a message, for a file to be read, for the turn of its build, and after every task
of a build. A `Desk` is a server with all that may be under way at one time: handlers that wait, builds
that have begun, and timers of scheduled builds that sleep. What a handler does between two waits is one
`Move`, and every order of moves is a run.

No edit is left unbuilt at a desk. A move that stops a build or lets a timer fire in vain always leaves
something behind that will begin a build or goes on with one: a build whose token has not fired, a timer
with the last ticket, or a handler that has read a file and will rebuild when it is through. And all of
this is counted, as a pending build or as a handler.
-/

namespace Workbench

/-- For whom a build is under way. -/
inductive Caller where
  | timer
  | handler
  /-- A handler that has something to tell the editor after the build. -/
  | closing
deriving DecidableEq, Repr

/-- A handler that looks at files after events. -/
structure Watching where
  /-- The events that it has not come to. -/
  events : List (Url × FileEvent)
  reloaded : Bool := false
  deleted : List DocumentUri := []

structure Desk where
  settings : Settings
  site : Site
  ticket : Nat := 0
  /-- The number of builds that are scheduled or on their way. -/
  pending : Nat := 0
  /-- The tickets of the timers that sleep. -/
  timers : List Nat := []
  /-- The generations of the builds on their way, and for whom they are. -/
  builds : List (Nat × Caller) := []
  watching : List Watching := []
  /-- The number of handlers that wait for the editor to take a message. -/
  telling : Nat := 0

/-- What happens at a desk at one go. -/
inductive Move where
  | opened (url : Url) (version : Int) (text : String)
  | changed (url : Url) (version : Int) (edits : List Text.Edit)
  | saved (url : Url) (text : Option String)
  | closed (url : Url)
  | watched (events : List (Url × FileEvent))
  /-- A handler looks at the file of its next event, and finds `text` if it can be read. A handler
  without further events rebuilds, if there is reason to. -/
  | look (handler : Nat) (text : Option String)
  /-- The editor has taken a message. -/
  | told
  /-- The time of a timer has come. -/
  | fires (ticket : Nat)
  /-- A build gets its turn. -/
  | start (generation : Nat)
  /-- The build whose turn it is carries out a task. -/
  | step

namespace Desk

/-- A desk at which nothing has happened. -/
def opened (l : Language) (settings : Settings) : Desk where
  settings := settings
  site := .opened l settings.validationOptions

/-! ### What handlers do -/

def isTooLarge (d : Desk) (text : String) : Bool :=
  decide (d.settings.maxDocumentSize < text.utf8ByteSize)

/-- The version of a document; `0` if it is not there. -/
def versionOf (d : Desk) (uri : DocumentUri) : Int :=
  ((d.site.workspace.documents.get? uri).map (·.version)).getD 0

/-- Changes the text of a document, and builds nothing (`apply`). -/
def apply (d : Desk) (uri : DocumentUri) (change : Change) : Desk :=
  { d with site := d.site.act (.apply uri change) }

/-- A handler tells the editor something, and waits until it is taken (`show_message`). -/
def tell (d : Desk) : Desk := { d with telling := d.telling + 1 }

/-- A build is over: it is not pending any more, and whoever asked for it goes on. -/
def finish (d : Desk) (caller : Caller) : Desk :=
  let d := { d with pending := d.pending - 1 }
  if caller = .closing then d.tell else d

/-- Begins a build that is counted as pending. A workspace that is shut down begins none. -/
def begin (d : Desk) (deleted : List DocumentUri) (caller : Caller) : Desk :=
  if d.site.workspace.shutDown then d.finish caller
  else
    { d with
      site := d.site.act (.begin [] deleted)
      builds := d.builds ++ [(d.site.workspace.generation + 1, caller)] }

/-- Builds the workspace without the documents `deleted` (`rebuild`). -/
def rebuild (d : Desk) (deleted : List DocumentUri) (caller : Caller) : Desk :=
  { d with pending := d.pending + 1 }.begin deleted caller

/-- Schedules a build (`schedule`). It takes the place of one scheduled before. -/
def schedule (d : Desk) : Desk :=
  { d with ticket := d.ticket + 1, pending := d.pending + 1, timers := d.timers ++ [d.ticket + 1] }

/-- Whether a change can be made. -/
def accepts (d : Desk) (uri : DocumentUri) (change : Change) : Bool :=
  (Workspace.changed? (d.site.workspace.documents.get? uri) change).isSome

/-- A handler looks at the file of an event (`did_change_watched_files`). -/
def look (d : Desk) (x : Watching) (url : Url) (text : Option String) : FileEvent → Desk × Watching
  | .deleted =>
    if d.site.workspace.documents.contains url.uri then
      (d, { x with deleted := x.deleted ++ [url.uri] })
    else (d, x)
  | .written =>
    if d.site.workspace.language.handles url.uri then
      match text with
      | none => (d, x)
      | some text =>
        if d.isTooLarge text then (d, x)
        else (d.apply url.uri (.set (d.versionOf url.uri) text), { x with reloaded := true })
    else (d, x)

/-- What happens in a move. One that is not possible does nothing. -/
def move (d : Desk) : Move → Desk
  | .opened url version text =>
    if d.isTooLarge text then d.tell
    else (d.apply url.uri (.set version text)).rebuild [] .handler
  | .changed url version edits =>
    if d.accepts url.uri (.edit version edits) then
      (d.apply url.uri (.edit version edits)).schedule
    else d
  | .saved url (some text) =>
    if d.isTooLarge text then d.tell
    else (d.apply url.uri (.set (d.versionOf url.uri) text)).rebuild [] .handler
  | .saved _ none => d.rebuild [] .handler
  | .closed url => d.rebuild [url.uri] .closing
  | .watched events => { d with watching := d.watching ++ [{ events }] }
  | .look handler text =>
    match d.watching[handler]? with
    | none => d
    | some { events := [], reloaded, deleted } =>
      let d := { d with watching := d.watching.eraseIdx handler }
      if reloaded || !deleted.isEmpty then d.rebuild deleted .handler else d
    | some { events := (url, event) :: events, reloaded, deleted } =>
      let (d, x) := d.look { events, reloaded, deleted } url text event
      { d with watching := d.watching.set handler x }
  | .told => { d with telling := d.telling - 1 }
  | .fires ticket =>
    if d.timers.contains ticket then
      let d := { d with timers := d.timers.erase ticket }
      if ticket = d.ticket then d.begin [] .timer else d.finish .timer
    else d
  | .start generation => { d with site := d.site.act (.start generation) }
  | .step =>
    match d.site.running with
    | none => d
    | some b =>
      let d := { d with site := d.site.act (.step .never) }
      if d.site.running.isSome then d
      else
        match d.builds.find? (·.1 == b.generation) with
        | none => d
        | some build => { d with builds := d.builds.erase build }.finish build.2

/-- Carries out moves one after the other. -/
def run (d : Desk) (moves : List Move) : Desk := moves.foldl move d

/-- The number of handlers under way. -/
def handlers (d : Desk) : Nat :=
  (d.builds.filter (·.2 != .timer)).length + d.watching.length + d.telling

end Desk

/-! ### Builds that are not stopped -/

namespace Site

variable {s : Site}

/-- Some document is not validated. -/
def Unbuilt (s : Site) : Prop :=
  ∃ uri d, s.workspace.documents.get? uri = some d ∧ d.state ≠ .validated

/-- The last build that has begun waits for its turn or has it, and its token has not fired. -/
def Awaited (s : Site) : Prop :=
  s.Awaits s.workspace.generation ∧ s.workspace.hasFired s.workspace.generation = false

theorem shutDown_act {a : Action} (up : s.workspace.shutDown = false) (notDown : a ≠ .shutdown) :
    (s.act a).workspace.shutDown = false := by
  cases a with
  | apply uri change =>
    rw [act]
    split
    · next w what applied =>
      obtain ⟨d, v, -, rfl, rfl, -⟩ := s.workspace.apply_cases applied
      exact up
    · exact up
  | begin changed deleted =>
    rw [act_begin up]
    exact up
  | start generation =>
    rw [act]
    split <;> exact up
  | step token =>
    rw [act]
    split
    · exact up
    · next b turn =>
      cases stepped : b.step s.workspace token with
      | mk w outcome =>
        rcases Build.step_cases stepped with
          ⟨rfl, -⟩ | ⟨_, _, -, rfl, -⟩ | ⟨_, _, _, _, -, -, visited, -⟩
        · exact up
        · exact up
        · rcases s.workspace.visit_cases visited with ⟨rfl, -⟩ | ⟨_, _, -, -, rfl⟩
          · exact up
          · exact up
  | abandon => exact up
  | shutdown => exact absurd rfl notDown
  | reuse uri previous =>
    rw [act]
    split <;> exact up
  | report uri =>
    rw [act]
    split
    · split <;> exact up
    · exact up

theorem Unbuilt.of_act {a : Action} (work : a.isWork = true) (h : (s.act a).Unbuilt) : s.Unbuilt := by
  by_contra built
  have validated : ∀ uri d, s.workspace.documents.get? uri = some d → d.state = .validated := by
    intro uri d found
    by_contra state
    exact built ⟨uri, d, found, state⟩
  obtain ⟨uri, d, found, state⟩ := h
  rw [(same_act validated work).1.documents] at found
  exact state (validated uri d found)

/-- A build that is waited for stays so until it has validated every document. -/
theorem Awaited.act (h : s.Awaited) (paced : s.Paced) (quiet : s.workspace.language.registry.Quiet)
    {a : Action} (calm : a.isCalm = true) (unbuilt : (s.act a).Unbuilt) : (s.act a).Awaited := by
  obtain ⟨awaits, alive⟩ := h
  rcases awaits.act quiet alive calm with complete | ⟨awaits', alive'⟩
  · obtain ⟨uri, d, found, state⟩ := unbuilt.of_act (Action.isWork_of_isCalm calm)
    exact absurd (paced.validated complete found) state
  · have current := Workspace.eq_of_hasFired alive'
    exact ⟨current ▸ awaits', current ▸ alive'⟩

end Site

/-! ### What is counted -/

namespace Desk

/-- What is under way is counted, save that `extra` builds are counted that have not begun or are over:
a pending build is a timer that sleeps or a build on its way, and every build that waits for its turn
or has it is on its way for someone. -/
structure Counted (l : Language) (extra : Nat) (d : Desk) : Prop where
  language : d.site.workspace.language = l
  up : d.site.workspace.shutDown = false
  paced : d.site.Paced
  pending : d.pending = d.timers.length + d.builds.length + extra
  builds : (d.builds.map (·.1)).Perm
    (d.site.waiting ++ d.site.running.toList.map (·.generation))

/-- Something is under way that begins a build or goes on with one. -/
inductive Promised (d : Desk) : Prop where
  | build (awaited : d.site.Awaited)
  | timer (sleeps : d.ticket ∈ d.timers)
  | handler {x : Watching} (mem : x ∈ d.watching) (reloaded : x.reloaded = true)

/-- What holds of a desk at all times. -/
structure Kept (l : Language) (d : Desk) : Prop where
  counted : d.Counted l 0
  promise : d.site.Unbuilt → d.Promised

variable {l : Language} {d : Desk}

theorem kept_opened (l : Language) (settings : Settings) : Kept l (opened l settings) where
  counted := ⟨rfl, rfl, ⟨nofun, nofun⟩, rfl, .nil⟩
  promise := by
    rintro ⟨uri, doc, found, -⟩
    cases found

namespace Promised

/-- What keeps a promise to build is not lost while the site, the ticket and the timers stay and no
handler leaves. -/
theorem mono {e : Desk} (h : d.Promised) (site : e.site = d.site) (ticket : e.ticket = d.ticket)
    (timers : e.timers = d.timers) (watching : ∀ x ∈ d.watching, x.reloaded = true →
      ∃ y ∈ e.watching, y.reloaded = true) : e.Promised := by
  cases h with
  | build awaited => exact .build (site ▸ awaited)
  | timer sleeps => exact .timer (by rw [ticket, timers]; exact sleeps)
  | handler mem reloaded =>
    obtain ⟨y, mem, reloaded⟩ := watching _ mem reloaded
    exact .handler mem reloaded

/-- A calm action at the site keeps a promise, as long as there is something to build. -/
theorem act (h : d.Promised) (counted : d.Counted l 0) (quiet : l.registry.Quiet) {a : Action}
    (calm : a.isCalm = true) (unbuilt : (d.site.act a).Unbuilt) :
    Promised { d with site := d.site.act a } := by
  cases h with
  | build awaited =>
    rw [← counted.language] at quiet
    exact .build (awaited.act counted.paced quiet calm unbuilt)
  | timer sleeps => exact .timer sleeps
  | handler mem reloaded => exact .handler mem reloaded

end Promised

namespace Counted

variable {extra : Nat}

theorem apply (h : d.Counted l extra) (uri : DocumentUri) (change : Change) :
    (d.apply uri change).Counted l extra := by
  have turns : (d.site.act (.apply uri change)).waiting = d.site.waiting ∧
      (d.site.act (.apply uri change)).running = d.site.running := by
    rw [Site.act]
    split <;> exact ⟨rfl, rfl⟩
  have language := (d.site.effect_act (.apply uri change)).frame.1
  refine ⟨language.trans h.language, Site.shutDown_act h.up (by simp), h.paced.act (.apply uri change),
    h.pending, ?_⟩
  show (d.builds.map (·.1)).Perm ((d.site.act _).waiting ++ (d.site.act _).running.toList.map _)
  rw [turns.1, turns.2]
  exact h.builds

/-- A build that is over is counted no more. -/
theorem finish (h : d.Counted l 1) (promise : d.site.Unbuilt → d.Promised) (caller : Caller) :
    (d.finish caller).Kept l := by
  have pending : d.pending - 1 = d.timers.length + d.builds.length + 0 := by
    rw [h.pending]
    rfl
  unfold Desk.finish
  dsimp only
  split
  · refine ⟨⟨h.language, h.up, h.paced, pending, h.builds⟩, fun unbuilt => ?_⟩
    exact (promise unbuilt).mono rfl rfl rfl fun x mem reloaded => ⟨x, mem, reloaded⟩
  · refine ⟨⟨h.language, h.up, h.paced, pending, h.builds⟩, fun unbuilt => ?_⟩
    exact (promise unbuilt).mono rfl rfl rfl fun x mem reloaded => ⟨x, mem, reloaded⟩

/-- The build whose turn it is carries out a task: it goes on, or it is over and was for someone. -/
theorem step (h : d.Counted l 0) {b : Build} (turn : d.site.running = some b) :
    ((d.site.act (.step .never)).running.isSome = true ∧
      Counted l 0 { d with site := d.site.act (.step .never) }) ∨
    (d.site.act (.step .never)).running.isSome = false ∧
      ∃ build, d.builds.find? (·.1 == b.generation) = some build ∧
        Counted l 1
          { d with site := d.site.act (.step .never), builds := d.builds.erase build } := by
  have language := (d.site.effect_act (.step .never)).frame.1.trans h.language
  have up := Site.shutDown_act (a := .step .never) h.up (by simp)
  have paced := h.paced.act (.step .never)
  have builds := h.builds
  rw [turn] at builds
  have waiting : (d.site.act (.step .never)).waiting = d.site.waiting := by
    rw [Site.act, turn]
  cases goes : (d.site.act (.step .never)).running with
  | some c =>
    have same : c.generation = b.generation := by
      rw [Site.act, turn] at goes
      exact Build.generation_step rfl goes
    refine .inl ⟨rfl, language, up, paced, h.pending, ?_⟩
    show (d.builds.map (·.1)).Perm (_ ++ (d.site.act _).running.toList.map _)
    rw [waiting, goes]
    simpa [same] using builds
  | none =>
    obtain ⟨build, found⟩ : ∃ build, d.builds.find? (·.1 == b.generation) = some build := by
      have own : b.generation ∈ d.builds.map (·.1) := builds.mem_iff.2 (by simp)
      obtain ⟨build, mem, eq⟩ := List.mem_map.1 own
      exact Option.isSome_iff_exists.1 (List.find?_isSome.2 ⟨build, mem, by simp [eq]⟩)
    have mem := List.mem_of_find?_eq_some found
    have eq : build.1 = b.generation := by simpa using List.find?_some found
    refine .inr ⟨rfl, build, found, language, up, paced, ?_, ?_⟩
    · show d.pending = d.timers.length + (d.builds.erase build).length + 1
      rw [h.pending, List.length_erase_of_mem mem]
      have positive := List.length_pos_of_mem mem
      omega
    · show ((d.builds.erase build).map (·.1)).Perm (_ ++ (d.site.act _).running.toList.map _)
      have split := ((List.perm_cons_erase mem).map (·.1)).symm.trans builds
      rw [List.map_cons, eq] at split
      rw [waiting, goes]
      simpa using (split.trans (List.perm_append_singleton _ _)).cons_inv

/-- A build that begins is waited for, so nothing is left unbuilt. -/
theorem begin (h : d.Counted l 1) (deleted : List DocumentUri) (caller : Caller) :
    (d.begin deleted caller).Kept l := by
  have language := (d.site.effect_act (.begin [] deleted)).frame.1
  obtain ⟨current, awaits, alive⟩ := d.site.awaits_begin h.up [] deleted
  rw [Desk.begin, if_neg (by rw [h.up]; exact Bool.false_ne_true)]
  constructor
  · refine ⟨language.trans h.language, Site.shutDown_act h.up (by simp),
      h.paced.act (.begin [] deleted), ?_, ?_⟩
    · rw [h.pending, List.length_append]
      rfl
    · rw [List.map_append, Site.act_begin h.up]
      show (d.builds.map (·.1) ++ [d.site.workspace.generation + 1]).Perm
        (d.site.waiting ++ [d.site.workspace.generation + 1] ++ _)
      rw [List.append_assoc]
      refine (h.builds.append_right _).trans ?_
      rw [List.append_assoc]
      exact List.perm_append_comm.append_left _
  · intro _
    exact .build ⟨current ▸ awaits, current ▸ alive⟩

theorem rebuild (h : d.Counted l 0) (deleted : List DocumentUri) (caller : Caller) :
    (d.rebuild deleted caller).Kept l := by
  have more : Counted l 1 { d with pending := d.pending + 1 } :=
    ⟨h.language, h.up, h.paced, congrArg (· + 1) h.pending, h.builds⟩
  exact more.begin deleted caller

end Counted

namespace Kept

/-- What changes neither the site nor what is counted keeps a desk as it should be, unless a handler
that will rebuild leaves. -/
theorem mono {e : Desk} (h : d.Kept l) (site : e.site = d.site) (ticket : e.ticket = d.ticket)
    (pending : e.pending = d.pending) (timers : e.timers = d.timers) (builds : e.builds = d.builds)
    (watching : ∀ x ∈ d.watching, x.reloaded = true → ∃ y ∈ e.watching, y.reloaded = true) :
    e.Kept l := by
  obtain ⟨counted, promise⟩ := h
  refine ⟨⟨?_, ?_, ?_, ?_, ?_⟩, fun unbuilt => ?_⟩
  · rw [site]; exact counted.language
  · rw [site]; exact counted.up
  · rw [site]; exact counted.paced
  · rw [pending, timers, builds]; exact counted.pending
  · rw [site, builds]; exact counted.builds
  · rw [site] at unbuilt
    exact (promise unbuilt).mono site ticket timers watching

theorem tell (h : d.Kept l) : d.tell.Kept l :=
  h.mono rfl rfl rfl rfl rfl fun x mem reloaded => ⟨x, mem, reloaded⟩

/-- A change that a scheduled build follows. -/
theorem change (h : d.Kept l) (uri : DocumentUri) (change : Change) :
    (d.apply uri change).schedule.Kept l := by
  have counted := h.counted.apply uri change
  refine ⟨⟨counted.language, counted.up, counted.paced, ?_, counted.builds⟩, fun _ => .timer ?_⟩
  · have pending := counted.pending
    show d.pending + 1 = (d.timers ++ [d.ticket + 1]).length + d.builds.length + 0
    rw [List.length_append, show d.pending = d.timers.length + d.builds.length + 0 from pending]
    simp only [List.length_singleton]
    omega
  · exact List.mem_append_right _ List.mem_cons_self

/-- A handler looks at a file. If it reads the file, it will rebuild. -/
theorem look (h : d.Kept l) {handler : Nat} {x : Watching} (there : d.watching[handler]? = some x)
    (url : Url) (events : List (Url × FileEvent)) (text : Option String) (event : FileEvent) :
    let (e, y) := d.look { x with events } url text event
    Kept l { e with watching := e.watching.set handler y } := by
  obtain ⟨bound, eq⟩ := List.getElem?_eq_some_iff.1 there
  -- a handler that has read a file before has read one still
  have still : ∀ y : Watching, y.reloaded = x.reloaded →
      Kept l { d with watching := d.watching.set handler y } := by
    intro y same
    refine h.mono rfl rfl rfl rfl rfl fun z mem reloaded => ?_
    obtain ⟨i, hi, rfl⟩ := List.mem_iff_getElem.1 mem
    by_cases own : i = handler
    · subst own
      refine ⟨y, List.mem_set hi y, ?_⟩
      rw [same, ← eq]
      exact reloaded
    · refine ⟨d.watching[i], ?_, reloaded⟩
      exact List.mem_iff_getElem.2 ⟨i, by simpa using hi, List.getElem_set_ne (Ne.symm own) _⟩
  unfold Desk.look
  cases event with
  | deleted =>
    dsimp only
    split <;> exact still _ rfl
  | written =>
    dsimp only
    split
    · split
      · exact still _ rfl
      · split
        · exact still _ rfl
        · next read _ =>
          have counted := h.counted.apply url.uri (.set (d.versionOf url.uri) read)
          refine ⟨⟨counted.language, counted.up, counted.paced, counted.pending, counted.builds⟩, ?_⟩
          intro _
          exact .handler (List.mem_set bound _) rfl
    · exact still _ rfl

/-- A handler that has seen all files leaves, and rebuilds if there is reason to. -/
theorem leave (h : d.Kept l) {handler : Nat} {x : Watching}
    (there : d.watching[handler]? = some x) :
    Kept l (let e := { d with watching := d.watching.eraseIdx handler }
      if x.reloaded || !x.deleted.isEmpty then e.rebuild x.deleted .handler else e) := by
  obtain ⟨counted, promise⟩ := h
  dsimp only
  split
  · have left : Counted l 0 { d with watching := d.watching.eraseIdx handler } :=
      ⟨counted.language, counted.up, counted.paced, counted.pending, counted.builds⟩
    exact left.rebuild x.deleted .handler
  · next noReason =>
    refine Kept.mono ⟨counted, promise⟩ rfl rfl rfl rfl rfl fun y mem reloaded => ⟨y, ?_, reloaded⟩
    -- the handler that leaves has read nothing
    obtain ⟨i, hi, rfl⟩ := List.mem_iff_getElem.1 mem
    refine List.mem_eraseIdx_iff_getElem.2 ⟨i, hi, fun own => ?_, rfl⟩
    subst own
    rw [List.getElem?_eq_getElem hi] at there
    cases there
    simp [reloaded] at noReason

/-- The time of a timer has come: it begins a build if it has the last ticket, and otherwise the timer
with the last ticket sleeps still. -/
theorem fires (h : d.Kept l) {ticket : Nat} (sleeps : ticket ∈ d.timers) :
    Kept l (let e := { d with timers := d.timers.erase ticket }
      if ticket = d.ticket then e.begin [] .timer else e.finish .timer) := by
  obtain ⟨counted, promise⟩ := h
  have one : Counted l 1 { d with timers := d.timers.erase ticket } := by
    refine ⟨counted.language, counted.up, counted.paced, ?_, counted.builds⟩
    show d.pending = (d.timers.erase ticket).length + d.builds.length + 1
    rw [counted.pending, List.length_erase_of_mem sleeps]
    have positive := List.length_pos_of_mem sleeps
    omega
  dsimp only
  split
  · exact one.begin [] .timer
  · next late =>
    refine one.finish (fun unbuilt => ?_) .timer
    cases promise unbuilt with
    | build awaited => exact .build awaited
    | timer last => exact .timer ((List.mem_erase_of_ne (Ne.symm late)).2 last)
    | handler mem reloaded => exact .handler mem reloaded

theorem start (h : d.Kept l) (quiet : l.registry.Quiet) (generation : Nat) :
    Kept l { d with site := d.site.act (.start generation) } := by
  obtain ⟨counted, promise⟩ := h
  have language := (d.site.effect_act (.start generation)).frame.1
  refine ⟨⟨language.trans counted.language, Site.shutDown_act counted.up (by simp),
    counted.paced.act (.start generation), counted.pending, ?_⟩, fun unbuilt => ?_⟩
  · refine counted.builds.trans ?_
    show (d.site.waiting ++ _).Perm ((d.site.act _).waiting ++ (d.site.act _).running.toList.map _)
    rw [Site.act]
    split
    · next ready =>
      simp only [Bool.and_eq_true, Option.isNone_iff_eq_none, List.contains_eq_mem,
        decide_eq_true_eq] at ready
      obtain ⟨idle, waits⟩ := ready
      rw [idle]
      refine (List.Perm.of_eq (List.append_nil _)).trans ((List.perm_cons_erase waits).trans ?_)
      exact (List.perm_append_singleton _ _).symm
    · exact .rfl
  · have before := unbuilt.of_act rfl
    exact (promise before).act counted quiet rfl unbuilt

/-- A build carries out a task. Where it is over, it is not counted any more. -/
theorem step (h : d.Kept l) (quiet : l.registry.Quiet) : (d.move .step).Kept l := by
  obtain ⟨counted, promise⟩ := h
  rw [move]
  split
  · exact ⟨counted, promise⟩
  · next b turn =>
    have promised : (d.site.act (.step .never)).Unbuilt →
        Promised { d with site := d.site.act (.step .never) } := fun unbuilt =>
      (promise (unbuilt.of_act rfl)).act counted quiet rfl unbuilt
    dsimp only
    rcases counted.step turn with ⟨goes, counted'⟩ | ⟨ended, build, found, one⟩
    · rw [if_pos goes]
      exact ⟨counted', promised⟩
    · rw [if_neg (by rw [ended]; exact Bool.false_ne_true), found]
      exact one.finish (fun unbuilt => (promised unbuilt).mono rfl rfl rfl
        fun x mem reloaded => ⟨x, mem, reloaded⟩) build.2

/-- Every move keeps a desk as it should be. -/
theorem move (h : d.Kept l) (quiet : l.registry.Quiet) (m : Move) : (d.move m).Kept l := by
  cases m with
  | opened url version text =>
    rw [Desk.move]
    split
    · exact h.tell
    · exact (h.counted.apply _ _).rebuild _ _
  | changed url version edits =>
    rw [Desk.move]
    split
    · exact h.change _ _
    · exact h
  | saved url text =>
    cases text with
    | none => exact h.counted.rebuild _ _
    | some text =>
      rw [Desk.move]
      split
      · exact h.tell
      · exact (h.counted.apply _ _).rebuild _ _
  | closed url => exact h.counted.rebuild _ _
  | watched events =>
    exact h.mono rfl rfl rfl rfl rfl fun x mem reloaded =>
      ⟨x, List.mem_append_left _ mem, reloaded⟩
  | look handler text =>
    rw [Desk.move]
    split
    · exact h
    · next there => exact h.leave there
    · next there => exact h.look there _ _ text _
  | told => exact h.mono rfl rfl rfl rfl rfl fun x mem reloaded => ⟨x, mem, reloaded⟩
  | fires ticket =>
    rw [Desk.move]
    split
    · next sleeps => exact h.fires (by simpa using sleeps)
    · exact h
  | start generation => exact h.start quiet generation
  | step => exact h.step quiet

theorem run (h : d.Kept l) (quiet : l.registry.Quiet) (moves : List Move) : (d.run moves).Kept l := by
  induction moves generalizing d with
  | nil => exact h
  | cons m rest ih => exact ih (h.move quiet m)

/-- Where no handler is under way and no build is pending, nothing is left that was promised. -/
theorem validated (h : d.Kept l) (idle : d.handlers = 0) (none : d.pending = 0) {uri : DocumentUri}
    {doc : Document} (found : d.site.workspace.documents.get? uri = some doc) :
    doc.state = .validated := by
  obtain ⟨counted, promise⟩ := h
  by_contra state
  have pending := counted.pending
  have timers : d.timers = [] := List.length_eq_zero_iff.1 (by omega)
  have builds : d.builds = [] := List.length_eq_zero_iff.1 (by omega)
  have watching : d.watching = [] := by
    unfold handlers at idle
    exact List.length_eq_zero_iff.1 (by omega)
  have turns := counted.builds
  rw [builds, List.map_nil, List.nil_perm, List.append_eq_nil_iff] at turns
  cases promise ⟨uri, doc, found, state⟩ with
  | build awaited =>
    rcases awaited.1 with waits | ⟨b, turn, -⟩
    · rw [turns.1] at waits
      cases waits
    · rw [turn] at turns
      cases turns.2
  | timer sleeps =>
    rw [timers] at sleeps
    cases sleeps
  | handler mem _ =>
    rw [watching] at mem
    cases mem

end Kept

/-- No edit is left unbuilt: in every run without shutdown, in whatever order handlers, builds and timers
go on, every document is validated whenever no handler is under way and no build is pending. -/
theorem validated_run {l : Language} (quiet : l.registry.Quiet) (settings : Settings)
    (moves : List Move) :
    let d := (opened l settings).run moves
    d.handlers = 0 → d.pending = 0 →
      ∀ uri doc, d.site.workspace.documents.get? uri = some doc → doc.state = .validated := by
  intro d idle none uri doc found
  exact ((kept_opened l settings).run quiet moves).validated idle none found

/-- The URL of a file on this machine. -/
def fileAt (path : String) : Url :=
  { scheme := "file", host := some (.domain ""), path, query := none, fragment := none }

/-- Two documents are opened, and both builds are on their way. The second one is stopped by a change,
and so is its schedule by another change. A file is read before the last timer begins its build, and the
handler that has read it overtakes that build. -/
def crossing : List Move :=
  ([.opened (fileAt "/b.dmodel") 1 "class X {}", .opened (fileAt "/c.dmodel") 1 "class C extends X {}",
    .start 1, .step, .start 2, .step, .step, .step,
    .changed (fileAt "/b.dmodel") 2 [⟨none, "class Y {}"⟩], .watched [(fileAt "/c.dmodel", .written)],
    .changed (fileAt "/b.dmodel") 3 [⟨none, "class X {}"⟩], .fires 1, .step,
    .look 0 (some "class D extends X {}"), .fires 2, .look 0 none, .start 4] : List Move) ++
    List.replicate 16 .step ++ [.start 3, .step]

theorem validated_crossing :
    let d := (opened DomainModel.language {}).run crossing
    DomainModel.language.registry.Quiet ∧ d.handlers = 0 ∧ d.pending = 0 ∧
      d.site.workspace.documents.keys = ["file:///b.dmodel", "file:///c.dmodel"] ∧
      ∀ uri doc, d.site.workspace.documents.get? uri = some doc → doc.state = .validated := by
  have idle : ((opened DomainModel.language {}).run crossing).handlers = 0 ∧
      ((opened DomainModel.language {}).run crossing).pending = 0 ∧
      ((opened DomainModel.language {}).run crossing).site.workspace.documents.keys =
        ["file:///b.dmodel", "file:///c.dmodel"] := by decide +kernel
  obtain ⟨idle, none, keys⟩ := idle
  have quiet := DomainModel.quiet_registry
  exact ⟨quiet, idle, none, keys, validated_run quiet {} crossing idle none⟩

end Desk

end Workbench
