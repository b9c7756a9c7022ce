import RegionOutline.Proofs.Engine.Idle
import RegionOutline.Proofs.Engine.Schedule
import RegionOutline.Proofs.View.Window

/-!
# The view beside the session

A session decides on a viewport while it handles a message, and the view hears of
it later, through commands. Still the two agree whenever a message has been dealt
with: the rows of the view are those of the index, and no position that the view is
told is beyond its rows. The viewports agree as well, as long as the host tells a
line whenever it is asked for the caret.
-/

namespace RegionOutline

namespace View

variable {view : View} {calls : List ViewCall}

/-- The view takes over what a call says and does not bring it into range. -/
def Takes (view : View) : ViewCall → Prop
  | .publish _ => True
  | .scrollTo first => (view.scrollTo first).firstVisible = first
  | .focus row => (view.focus row).focused = row

/-- Each call is taken as it is by the view that the calls before it have left. -/
def TakesAll : View → List ViewCall → Prop
  | _, [] => True
  | view, call :: rest => view.Takes call ∧ (view.apply call).TakesAll rest

theorem takesAll_append (view : View) (first second : List ViewCall) :
    view.TakesAll (first ++ second) ↔
      view.TakesAll first ∧ (first.foldl View.apply view).TakesAll second := by
  induction first generalizing view with
  | nil => simp [TakesAll]
  | cons call rest ih => simp [TakesAll, ih, and_assoc]

/-- A first row that is there is scrolled to. -/
theorem scrollTo_of_inside (view : View) {first : Nat}
    (h : first = 0 ∨ first < view.entries.length) :
    view.scrollTo first = { view with firstVisible := first } := by
  have hmin : min first (view.entries.length - 1) = first := by omega
  rw [scrollTo, hmin]

/-- A row that is there is highlighted. -/
theorem focus_of_inside (view : View) {row : Option Nat}
    (h : ∀ position, row = some position → position < view.entries.length) :
    view.focus row = { view with focused := row } := by
  have hfilter : row.filter (· < view.entries.length) = row := by
    cases row with
    | none => rfl
    | some position => simp [h position rfl]
  rw [focus, hfilter]

/-- Told of a viewport that fits its rows, a view changes in that only. -/
theorem foldl_viewport (view : View) (target : Viewport)
    (fits : target.Fits view.entries.length) :
    [.scrollTo target.first, .focus target.focused].foldl View.apply view =
      { view with firstVisible := target.first, focused := target.focused } := by
  have hscroll := view.scrollTo_of_inside fits.first
  have hfocus := (view.scrollTo target.first).focus_of_inside fits.focused
  change (view.scrollTo target.first).focus target.focused = _
  rw [hfocus, hscroll]

/-- A viewport that fits the rows is taken over whole. -/
theorem takesAll_viewport (view : View) (target : Viewport)
    (fits : target.Fits view.entries.length) :
    view.TakesAll [.scrollTo target.first, .focus target.focused] ∧
      ([.scrollTo target.first, .focus target.focused].foldl View.apply view).viewport =
        target := by
  have hscroll := view.scrollTo_of_inside fits.first
  have hfocus := (view.scrollTo target.first).focus_of_inside fits.focused
  refine ⟨⟨?_, ?_, trivial⟩, ?_⟩
  · change (view.scrollTo target.first).firstVisible = target.first
    rw [hscroll]
  · change ((view.scrollTo target.first).focus target.focused).focused = target.focused
    rw [hfocus]
  · rw [view.foldl_viewport target fits]
    rfl

end View

namespace Session

variable {before after : Session} {vain : Bool} {calls : List ViewCall} {view : View}

/-- All that dealing with a message can do to the index and the viewport, with what
the view is told; in the last case the host was asked in vain for the caret. -/
inductive Shows (before after : Session) : Bool → List ViewCall → Prop
  | nothing (index_eq : after.index = before.index)
      (viewport_eq : after.viewport = before.viewport) : Shows before after false []
  | focus (row : Option Nat) (index_eq : after.index = before.index)
      (viewport_eq : after.viewport = ⟨before.firstVisible, row⟩)
      (inside : ∀ position, row = some position → position < after.index.size) :
      Shows before after false [.focus row]
  | scroll (index_eq : after.index = before.index)
      (fits : after.viewport.Fits after.index.size) :
      Shows before after false [.scrollTo after.viewport.first, .focus after.viewport.focused]
  | clear (index_eq : after.index = .empty) (viewport_eq : after.viewport = ⟨0, none⟩) :
      Shows before after false [.publish after.index.entries]
  | replace (fits : after.viewport.Fits after.index.size) :
      Shows before after false
        [.publish after.index.entries, .scrollTo after.viewport.first,
          .focus after.viewport.focused]
  | blind (viewport_eq : after.viewport = before.viewport) :
      Shows before after true [.publish after.index.entries]

/-- The rows are those of the index again. -/
theorem Shows.rows_eq (shows : before.Shows after vain calls)
    (rows : view.entries = before.index.entries) :
    (calls.foldl View.apply view).entries = after.index.entries := by
  cases shows with
  | nothing index_eq _ => rw [index_eq, ← rows]; rfl
  | focus row index_eq _ _ => rw [index_eq, ← rows]; rfl
  | scroll index_eq _ => rw [index_eq, ← rows]; rfl
  | clear _ _ => rfl
  | replace _ => rfl
  | blind _ => rfl

/-- No call is brought into range. -/
theorem Shows.takesAll (shows : before.Shows after vain calls)
    (rows : view.entries = before.index.entries) : view.TakesAll calls := by
  cases shows with
  | nothing _ _ => trivial
  | focus row index_eq _ inside =>
      rw [index_eq, Index.size, ← rows] at inside
      refine ⟨?_, trivial⟩
      change (view.focus row).focused = row
      rw [view.focus_of_inside inside]
  | scroll index_eq fits =>
      rw [index_eq, Index.size, ← rows] at fits
      exact (view.takesAll_viewport after.viewport fits).1
  | clear _ _ => exact ⟨trivial, trivial⟩
  | replace fits =>
      have shown := (view.publish after.index.entries).takesAll_viewport after.viewport fits
      exact ⟨trivial, shown.1⟩
  | blind _ => exact ⟨trivial, trivial⟩

/-- The viewports agree again, unless the host was asked in vain. -/
theorem Shows.viewport_eq (shows : before.Shows after false calls)
    (rows : view.entries = before.index.entries) (same : view.viewport = before.viewport) :
    (calls.foldl View.apply view).viewport = after.viewport := by
  cases shows with
  | nothing _ viewport_eq => rw [viewport_eq, ← same]; rfl
  | focus row index_eq viewport_eq inside =>
      rw [index_eq, Index.size, ← rows] at inside
      have hfirst : view.firstVisible = before.firstVisible := congrArg Viewport.first same
      change (view.focus row).viewport = after.viewport
      rw [viewport_eq, view.focus_of_inside inside, ← hfirst]
      rfl
  | scroll index_eq fits =>
      rw [index_eq, Index.size, ← rows] at fits
      exact (view.takesAll_viewport after.viewport fits).2
  | clear index_eq viewport_eq =>
      -- Published over with no rows, the view goes back to the top as the session did.
      change (view.publish after.index.entries).viewport = after.viewport
      rw [viewport_eq, index_eq]
      simp [View.publish, View.viewport, Index.empty]
  | replace fits =>
      have shown := (view.publish after.index.entries).takesAll_viewport after.viewport fits
      exact shown.2

end Session

namespace Engine

variable {engine : Engine}

/-- Whether dealing with a message comes to ask the host for the caret, and the host
cannot tell. -/
def asksInVain (engine : Engine) (message : Message) : Bool :=
  decide (.caretMoved none ∈ engine.echoes message)

/-- What an engine has told its view since. -/
structure Told (engine after : Engine) (calls : List ViewCall) : Prop where
  view_eq : after.view = calls.foldl View.apply engine.view
  journal_eq : after.journal = engine.journal ++ calls

theorem told_nothing {after : Engine} (hview : after.view = engine.view)
    (hjournal : after.journal = engine.journal) : engine.Told after [] :=
  ⟨hview, by rw [hjournal, List.append_nil]⟩

theorem told_tell (engine : Engine) (call : ViewCall) : engine.Told (engine.tell call) [call] :=
  ⟨rfl, rfl⟩

theorem Told.trans {after last : Engine} {calls more : List ViewCall}
    (first : engine.Told after calls) (second : after.Told last more) :
    engine.Told last (calls ++ more) := by
  constructor
  · rw [second.view_eq, first.view_eq, List.foldl_append]
  · rw [second.journal_eq, first.journal_eq, List.append_assoc]

/-- A viewport under a current token reaches the view. -/
theorem told_showScroll (engine : Engine) (scroll : Scroll)
    (current : engine.session.scrollScope.isCurrent scroll.token = true) :
    engine.Told (engine.showScroll scroll)
        [.scrollTo scroll.target.first, .focus scroll.target.focused] ∧
      (engine.showScroll scroll).session = engine.session := by
  rw [showScroll, if_pos current]
  exact ⟨(engine.told_tell _).trans (told_tell _ _), rfl⟩

/-- Asking a host that cannot tell the caret leaves everything in sight as it is. -/
theorem told_scrollToCaret_none (engine : Engine) (unknown : engine.host.line? = none) :
    engine.Told engine.scrollToCaret [] ∧
      engine.scrollToCaret.session.index = engine.session.index ∧
      engine.scrollToCaret.session.viewport = engine.session.viewport := by
  obtain ⟨hnone, hindex, hviewport⟩ := engine.session.moveCaret_still (Or.inr rfl)
  unfold scrollToCaret
  rw [unknown]
  cases hmove : engine.session.moveCaret none with
  | mk session asked =>
      rw [hmove] at hnone hindex hviewport
      cases hnone
      exact ⟨told_nothing rfl rfl, hindex, hviewport⟩

/-- With no scan under way, the viewport for the caret reaches the view. -/
theorem told_scrollToCaret_some (engine : Engine) (idle : engine.session.inFlight = none)
    {line : Nat} (known : engine.host.line? = some line) :
    engine.Told engine.scrollToCaret
        [.scrollTo (engine.session.scrollTarget line).first,
          .focus (engine.session.scrollTarget line).focused] ∧
      engine.scrollToCaret.session.index = engine.session.index ∧
      engine.scrollToCaret.session.viewport = engine.session.scrollTarget line := by
  have hmove := engine.session.moveCaret_idle idle line
  unfold scrollToCaret
  rw [known, hmove]
  obtain ⟨told, hsession⟩ := told_showScroll
    { engine with session := (engine.session.moveCaret (some line)).1 }
    ⟨engine.session.scrollTarget line, engine.session.scrollScope.nextToken⟩
    (by rw [hmove]; exact CancelScope.isCurrent_renew _)
  rw [hmove] at told hsession
  refine ⟨⟨told.view_eq, told.journal_eq⟩, ?_⟩
  simp only [hsession]
  exact ⟨rfl, rfl⟩

/-- The command that a message brings carries its viewport to the view. -/
theorem shows_carryOut (engine : Engine) {before : Session} {command : Command}
    (turns : before.Turns engine.session command) :
    ∃ calls, engine.Told (engine.carryOut command) calls ∧
      before.Shows (engine.carryOut command).session
        (decide (.caretMoved none ∈ engine.heard command)) calls := by
  cases turns with
  | rests index_eq viewport_eq => exact ⟨[], told_nothing rfl rfl, .nothing index_eq viewport_eq⟩
  | scans revision source token index_eq viewport_eq =>
      exact ⟨[], told_nothing rfl rfl, .nothing index_eq viewport_eq⟩
  | visits line row index_eq viewport_eq inside =>
      exact ⟨[.focus row], ⟨rfl, rfl⟩, .focus row index_eq viewport_eq inside⟩
  | scrolls token index_eq fits current =>
      obtain ⟨told, hsession⟩ := engine.told_showScroll ⟨engine.session.viewport, token⟩ current
      refine ⟨_, told, ?_⟩
      change before.Shows (engine.showScroll _).session false _
      rw [hsession]
      exact .scroll index_eq fits
  | clears index_eq viewport_eq => exact ⟨_, engine.told_tell _, .clear index_eq viewport_eq⟩
  | replaces token fits current =>
      have published := engine.told_tell (.publish engine.session.index.entries)
      obtain ⟨told, hsession⟩ := told_showScroll (engine.carryOut .publish)
        ⟨engine.session.viewport, token⟩ current
      refine ⟨_, published.trans told, ?_⟩
      change before.Shows (Engine.showScroll _ _).session false _
      rw [hsession]
      exact .replace fits
  | asks viewport_eq idle =>
      -- Only here is the host asked, and whether it can tell decides what is shown.
      have published := engine.told_tell (.publish engine.session.index.entries)
      change ∃ calls, engine.Told (engine.carryOut .publish).scrollToCaret calls ∧
        before.Shows (engine.carryOut .publish).scrollToCaret.session
          (decide (Message.caretMoved none ∈ [Message.caretMoved engine.host.line?])) calls
      cases hline : engine.host.line? with
      | none =>
          obtain ⟨told, hindex, hviewport⟩ :=
            (engine.carryOut .publish).told_scrollToCaret_none hline
          have blind := Session.Shows.blind (hviewport.trans viewport_eq)
          rw [hindex] at blind
          exact ⟨_, published.trans told, blind⟩
      | some line =>
          obtain ⟨told, hindex, hviewport⟩ :=
            (engine.carryOut .publish).told_scrollToCaret_some idle hline
          have fits := engine.session.scrollTarget_fits line
          have replaced : before.Shows (engine.carryOut .publish).scrollToCaret.session false _ :=
            .replace (by rw [hviewport, hindex]; exact fits)
          rw [hindex, hviewport] at replaced
          exact ⟨_, published.trans told, replaced⟩

/-- Whatever message is dealt with, the view is told what the session has come to. -/
theorem shows_dispatch (live : engine.session.PendingLive) (message : Message) :
    ∃ calls, engine.Told (engine.dispatch message) calls ∧
      engine.session.Shows (engine.dispatch message).session (engine.asksInVain message) calls := by
  have turns := Session.turns_handle live message
  obtain ⟨calls, told, shows⟩ :=
    { engine with session := (engine.session.handle message).1 }.shows_carryOut turns
  rw [dispatch_eq]
  exact ⟨calls, ⟨told.view_eq, told.journal_eq⟩, shows⟩

/-- The view is what everything told to a fresh one has made of it, its rows are
those of the index, and nothing it was told had to be brought into range. -/
structure Mirrors (engine : Engine) (fresh : View) : Prop where
  view_eq : engine.view = engine.journal.foldl View.apply fresh
  rows_eq : engine.view.entries = engine.session.index.entries
  taken : fresh.TakesAll engine.journal

theorem Mirrors.shown {after : Engine} {fresh : View} {vain : Bool} {calls : List ViewCall}
    (mirrors : engine.Mirrors fresh) (told : engine.Told after calls)
    (shows : engine.session.Shows after.session vain calls) : after.Mirrors fresh := by
  constructor
  · rw [told.view_eq, told.journal_eq, List.foldl_append, ← mirrors.view_eq]
  · rw [told.view_eq]
    exact shows.rows_eq mirrors.rows_eq
  · rw [told.journal_eq, View.takesAll_append, ← mirrors.view_eq]
    exact ⟨mirrors.taken, shows.takesAll mirrors.rows_eq⟩

end Engine

namespace Machine

variable {settings : Settings} {machine after last : Machine} {action : Action}
variable {schedule : List Action}

/-- Whether a step comes to ask the host for the caret, and the host cannot tell. -/
def asksInVain (machine : Machine) : Action → Bool
  | .event event => machine.engine.asksInVain (event.message machine.engine.host)
  | .take | .receive =>
      match machine.engine.queue with
      | [] => false
      | message :: waiting => (machine.engine.withQueue waiting).asksInVain message
  | .change _ | .post _ | .work _ | .enter | .look | .timeOut | .leave => false

/-- The host tells a line whenever it is asked for the caret on the way. -/
def TellsCaret (first : Machine) (schedule : List Action) : Prop :=
  first.EachStep (fun machine action _ => machine.asksInVain action = false) schedule

instance decidableTellsCaret (first : Machine) (schedule : List Action) :
    Decidable (first.TellsCaret schedule) :=
  decidableEachStep _ first schedule

theorem Sound.pendingLive (sound : machine.Sound settings) :
    machine.engine.session.PendingLive := by
  rw [sound.session_eq]
  exact Session.pendingLive_afterMessages settings machine.handled

theorem engine_lookAt (machine : Machine) (position : Nat) :
    (machine.lookAt position).engine = machine.engine := by
  unfold lookAt
  split
  · rfl
  · split <;> rfl

/-- A step that passes a message on lets the view follow; no other step touches
the session or the view. -/
theorem shows_act (live : machine.engine.session.PendingLive)
    (h : machine.act action = some after) :
    ∃ calls, machine.engine.Told after.engine calls ∧
      machine.engine.session.Shows after.engine.session (machine.asksInVain action) calls := by
  match action with
  | .event event =>
      simp only [act] at h
      split at h
      · cases h
        obtain ⟨calls, told, shows⟩ := machine.engine.shows_dispatch live
          (event.message machine.engine.host)
        exact ⟨calls, ⟨told.view_eq, told.journal_eq⟩, shows⟩
      · cases h
  | .take | .receive =>
      simp only [act] at h
      split at h
      · cases h
        rename_i message waiting _ hqueue
        obtain ⟨calls, told, shows⟩ :=
          (machine.engine.withQueue waiting).shows_dispatch live message
        refine ⟨calls, ⟨told.view_eq, told.journal_eq⟩, ?_⟩
        simp only [asksInVain, hqueue]
        exact shows
      · cases h
  | .look =>
      simp only [act] at h
      split at h
      · cases h
        rw [engine_lookAt]
        exact ⟨[], Engine.told_nothing rfl rfl, .nothing rfl rfl⟩
      · cases h
  | .work position =>
      obtain ⟨thread, _, rfl⟩ := Option.map_eq_some_iff.1 h
      exact ⟨[], Engine.told_nothing rfl rfl, .nothing rfl rfl⟩
  | .change _ | .post _ =>
      cases h
      exact ⟨[], Engine.told_nothing rfl rfl, .nothing rfl rfl⟩
  | .enter | .timeOut | .leave =>
      simp only [act] at h
      split at h
      · cases h
        exact ⟨[], Engine.told_nothing rfl rfl, .nothing rfl rfl⟩
      · cases h

/-- What a run keeps, from any sound machine on. -/
theorem mirrors_of_run {fresh : View} (sound : machine.Sound settings)
    (mirrors : machine.engine.Mirrors fresh) (run : machine.run schedule = some last) :
    last.engine.Mirrors fresh ∧
      (machine.TellsCaret schedule →
        machine.engine.view.viewport = machine.engine.session.viewport →
        last.engine.view.viewport = last.engine.session.viewport) := by
  -- Forward along the schedule, since a step is judged by the machine that it starts from.
  induction schedule generalizing machine with
  | nil =>
      cases run
      exact ⟨mirrors, fun _ same => same⟩
  | cons action rest ih =>
      rw [run_cons] at run
      obtain ⟨next, hact, hrest⟩ := Option.bind_eq_some_iff.1 run
      obtain ⟨calls, told, shows⟩ := shows_act sound.pendingLive hact
      obtain ⟨mirrored, follows⟩ :=
        ih (sound.moves (moves_of_act hact)) (mirrors.shown told shows) hrest
      refine ⟨mirrored, ?_⟩
      intro tells same
      obtain ⟨hvain, later⟩ := tells next hact
      apply follows later
      rw [hvain] at shows
      rw [told.view_eq]
      exact shows.viewport_eq mirrors.rows_eq same

/-- However events and messages come in, and whatever is posted, the view keeps step
with the session: its rows are those of the index, it takes every position as it is
told it, and its viewport is that of the session unless the host was asked in vain
for the caret. Whatever is asked of an engine, one of these runs comes to. -/
theorem view_keeps_step (settings : Settings) (host : Host) (options : ViewOptions)
    {schedule : List Action} {machine : Machine}
    (run : (start settings host { options }).run schedule = some machine) :
    machine.engine.Mirrors { options } ∧
      ((start settings host { options }).TellsCaret schedule →
        machine.engine.view.focused = machine.engine.session.focused ∧
          machine.engine.view.firstVisible = machine.engine.session.firstVisible) ∧
      ∀ calls : List Engine.Call, ∃ turns record,
        (start settings host { options }).run turns = some (ofEngine record .free
          (calls.foldl Engine.perform { session := { settings }, host, view := { options } })) := by
  have fresh : (start settings host { options }).engine.Mirrors { options } := ⟨rfl, rfl, trivial⟩
  obtain ⟨mirrors, follows⟩ := mirrors_of_run (sound_start settings host { options }) fresh run
  refine ⟨mirrors, ?_, ?_⟩
  · intro tells
    have same := follows tells rfl
    exact ⟨congrArg Viewport.focused same, congrArg Viewport.first same⟩
  · intro calls
    exact run_calls [] { session := { settings }, host, view := { options } } calls

/-- A document of two rows with the caret on the second. -/
def onSecondRow : Host :=
  { document := { content := "public:\nprivate:", caretLine := 2 } }

/-- The rows come to be shown, then the first of them is activated. -/
def activated : List Action :=
  [.event .opened, .work 0, .work 0, .work 0, .work 0, .work 0, .take, .event (.entryActivated 1)]

theorem activated_keeps_step :
    ∃ machine,
      (start { entriesAbove := 0 } onSecondRow { options := {} }).run activated = some machine ∧
      (start { entriesAbove := 0 } onSecondRow { options := {} }).TellsCaret activated ∧
      machine.engine.Mirrors { options := {} } ∧
      machine.engine.view.entries.length = 2 ∧
      machine.engine.session.focused = some 0 ∧ machine.engine.session.firstVisible = 1 := by
  have hrun : ((start { entriesAbove := 0 } onSecondRow { options := {} }).run activated).map
      (fun machine => (machine.engine.view.entries.length, machine.engine.view.focused,
        machine.engine.view.firstVisible)) = some (2, some 0, 1) := by
    decide +kernel
  have tells :
      (start { entriesAbove := 0 } onSecondRow { options := {} }).TellsCaret activated := by
    decide +kernel
  obtain ⟨machine, run, hview⟩ := Option.map_eq_some_iff.1 hrun
  simp only [Prod.mk.injEq] at hview
  obtain ⟨hrows, hfocused, hfirst⟩ := hview
  obtain ⟨mirrors, follows, _⟩ := view_keeps_step { entriesAbove := 0 } onSecondRow {} run
  obtain ⟨sameFocus, sameFirst⟩ := follows tells
  exact ⟨machine, run, tells, mirrors, hrows, sameFocus ▸ hfocused, sameFirst ▸ hfirst⟩

end Machine

end RegionOutline
