/-
Actions on a world.

* `Session.exec`: what an action gives, and the world it leaves.
* `Failure.fault?`: the fault of the file system behind a failure.
* `Session.Ensures`: what an action ensures, unless the file system fails it;
  `Ensures.bind` for one action after another, `Ensures.finish_bind` for a run.
* `Session.ensures_change`: changes of the files.
* `Session.Logged`, `Session.ensures_logEvent`: an event in the log, stamped by the next
  reading of the clock.
-/
import Mathlib
import Directives.Session.Basic

namespace Directives

/-- The fault of the file system behind a failure. -/
def Failure.fault? : Failure → Option FileTree.Fault
  | unreadableDefinition _ fault | unreadableConfig _ fault | unreadableRoot _ fault
  | unreadableDocument _ fault | noEventDirectory _ fault | unopenedEvents _ fault
  | unreadableEvents _ fault | noOutputDirectory _ fault | unwritten _ fault => some fault
  | _ => none

/-- No failure of the file system ended the run. -/
def Ending.Undisturbed (ending : Ending) : Prop := ending.failure.bind Failure.fault? = none

instance (ending : Ending) : Decidable ending.Undisturbed :=
  inferInstanceAs (Decidable (ending.failure.bind Failure.fault? = none))

namespace Session

variable {α β : Type}

/-! ### Carrying out an action -/

/-- What an action gives, and the world it leaves. -/
def exec (session : Session α) (world : World) : Except Failure α × World :=
  (ExceptT.run session).run world

@[simp] lemma exec_pure (value : α) (world : World) :
    exec (pure value) world = (.ok value, world) := rfl

lemma exec_bind (session : Session α) (next : α → Session β) (world : World) :
    exec (session >>= next) world
      = match exec session world with
        | (.ok value, world) => exec (next value) world
        | (.error failure, world) => (.error failure, world) := by
  show (ExceptT.bindCont next (session.exec world).1 : StateM World _) (session.exec world).2 = _
  rcases session.exec world with ⟨_ | _, _⟩ <;> rfl

@[simp] lemma exec_tree (world : World) : exec tree world = (.ok world.tree, world) := rfl

@[simp] lemma exec_print (text : Text) (world : World) :
    exec (print text) world = (.ok (), { world with output := world.output ++ text }) := rfl

@[simp] lemma exec_warn (text : Text) (world : World) :
    exec (warn text) world = (.ok (), { world with warnings := world.warnings ++ text }) := rfl

@[simp] lemma exec_now (setting : Setting) (world : World) :
    exec (now setting) world = (.ok (setting.clock.reading world.readings),
      { world with readings := world.readings + 1 }) := rfl

@[simp] lemma exec_ofExcept (result : Except Failure α) (world : World) :
    exec (ofExcept result) world = (result, world) := by
  cases result <;> rfl

lemma exec_change (update : FileTree → FileTree × Option Failure) (world : World) :
    exec (change update) world
      = ((update world.tree).2.elim (.ok ()) .error,
        { world with tree := (update world.tree).1 }) := by
  have hget : exec get world = (.ok world, world) := rfl
  have hset : ∀ after, exec (set after) world = (.ok (), after) := fun _ => rfl
  simp only [change, exec_bind, hget, hset]
  cases (update world.tree).2 <;> rfl

/-- How a run ends whose action gives nothing but success or failure. -/
def ending : Except Failure Unit × World → Ending
  | (.ok _, world) => { world }
  | (.error failure, world) => { world, failure := some failure }

@[simp] lemma ending_world (result : Except Failure Unit) (world : World) :
    (ending (result, world)).world = world := by
  cases result <;> rfl

/-- What an action leaves of the files it starts on. -/
lemma finish_eq (session : Session Unit) (tree : FileTree) :
    session.finish tree = ending (session.exec { tree }) := by
  unfold finish ending
  rfl

/-! ### What an action ensures -/

/-- The file system fails the action, or what it gives and the world it leaves are as
described. -/
def Ensures (session : Session α) (world : World) (post : α → World → Prop) : Prop :=
  match session.exec world with
  | (.ok value, after) => post value after
  | (.error failure, _) => failure.fault?.isSome

lemma ensures_pure {value : α} {world : World} {post : α → World → Prop}
    (h : post value world) : Ensures (pure value) world post := h

lemma ensures_print {text : Text} {world : World} {post : Unit → World → Prop}
    (h : post () { world with output := world.output ++ text }) :
    Ensures (print text) world post := h

lemma ensures_warn (text : Text) (world : World) :
    Ensures (warn text) world fun _ after =>
      after = { world with warnings := world.warnings ++ text } := rfl

/-- The clock gives the reading whose turn it is. -/
lemma ensures_now (setting : Setting) (world : World) :
    (now setting).Ensures world fun timestamp after =>
      timestamp = setting.clock.reading world.readings
        ∧ after = { world with readings := world.readings + 1 } := ⟨rfl, rfl⟩

/-- One action after another ensures what the second does on each world the first may
leave. -/
lemma Ensures.bind {session : Session α} {next : α → Session β} {world : World}
    {post : α → World → Prop} {post' : β → World → Prop} (first : session.Ensures world post)
    (second : ∀ value after, post value after → (next value).Ensures after post') :
    (session >>= next).Ensures world post' := by
  unfold Ensures at first ⊢
  rw [exec_bind]
  cases hexec : session.exec world with
  | mk result after =>
      rw [hexec] at first
      cases result with
      | ok value => exact second value after first
      | error failure => exact first

/-- What an action ensures is a matter of how it is carried out. -/
lemma ensures_congr {session session' : Session α} {world : World} {post : α → World → Prop}
    (h : session.exec world = session'.exec world) :
    session.Ensures world post ↔ session'.Ensures world post := by
  unfold Ensures
  rw [h]

/-- What an action ensures, together with how it was carried out. -/
lemma Ensures.exec {session : Session α} {world : World} {post : α → World → Prop}
    (h : session.Ensures world post) :
    session.Ensures world fun value after =>
      post value after ∧ session.exec world = (.ok value, after) := by
  unfold Ensures at h ⊢
  cases hexec : session.exec world with
  | mk result after =>
      rw [hexec] at h
      cases result with
      | ok value => exact ⟨h, rfl⟩
      | error failure => exact h

/-- A run that the file system does not fail ends as the second of two actions ends on
a world that the first ensures. -/
lemma Ensures.finish_bind {session : Session α} {next : α → Session Unit} {tree : FileTree}
    {post : α → World → Prop} (first : session.Ensures { tree } post)
    (undisturbed : ((session >>= next).finish tree).Undisturbed) :
    ∃ value world, post value world
      ∧ (session >>= next).finish tree = ending ((next value).exec world) := by
  unfold Ensures at first
  rw [finish_eq, exec_bind] at undisturbed ⊢
  cases hexec : session.exec { tree } with
  | mk result after =>
      rw [hexec] at first undisturbed
      cases result with
      | ok value => exact ⟨value, after, first, rfl⟩
      | error failure => exact absurd undisturbed (Option.isSome_iff_ne_none.mp first)

/-- A change whose failures are failures of the file system changes the files, and
nothing else. -/
lemma ensures_change {update : FileTree → FileTree × Option Failure} {world : World}
    (faulty : ∀ failure, (update world.tree).2 = some failure → failure.fault?.isSome) :
    (change update).Ensures world fun _ after =>
      ∃ tree, update world.tree = (tree, none) ∧ after = { world with tree } := by
  unfold Ensures
  rw [exec_change]
  rcases hupdate : update world.tree with ⟨tree, _ | failure⟩
  · exact ⟨tree, rfl, rfl⟩
  · exact faulty failure (congrArg Prod.snd hupdate)

/-! ### The log -/

/-- The tree after an event was added to the log, if the config has one. -/
def Logged (setting : Setting) (event : Event) (tree tree' : FileTree) : Prop :=
  match setting.config.eventsLog with
  | none => tree' = tree
  | some log => EventLog.append tree (setting.path log) event = (tree', none)

lemma logged_iff_of_none {setting : Setting} {event : Event} {tree tree' : FileTree}
    (h : setting.config.eventsLog = none) : Logged setting event tree tree' ↔ tree' = tree := by
  simp [Logged, h]

lemma logged_iff_of_some {setting : Setting} {event : Event} {tree tree' : FileTree} {log : Path}
    (h : setting.config.eventsLog = some log) :
    Logged setting event tree tree'
      ↔ EventLog.append tree (setting.path log) event = (tree', none) := by
  simp [Logged, h]

/-- The failures of adding an event are failures of the file system. -/
lemma fault?_append {tree : FileTree} {file : Path} {event : Event} {failure : Failure}
    (h : (EventLog.append tree file event).2 = some failure) : failure.fault?.isSome := by
  have hdirectory : ∀ failure, (EventLog.makeDirectory tree file).2 = some failure →
      failure.fault?.isSome := by
    intro failure hfailure
    unfold EventLog.makeDirectory at hfailure
    split at hfailure
    · simp at hfailure
    · split_ifs at hfailure
      obtain ⟨fault, -, rfl⟩ := Option.map_eq_some_iff.mp hfailure
      rfl
  unfold EventLog.append at h
  split at h
  · next made =>
      exact hdirectory failure (by rw [made]; exact h)
  · split at h
    · obtain rfl := Option.some.inj h
      rfl
    · simp at h

/-- The clock is read for the event, and the event is logged. -/
lemma ensures_logEvent (setting : Setting) (action : Action) (command : Text) (details : Json)
    (world : World) :
    (logEvent setting action command details).Ensures world fun _ after =>
      ∃ tree, Logged setting
          (setting.event action command details (setting.clock.reading world.readings))
          world.tree tree
        ∧ after = { world with tree, readings := world.readings + 1 } := by
  refine Ensures.bind (ensures_now setting world) ?_
  rintro _ _ ⟨rfl, rfl⟩
  cases hlog : setting.config.eventsLog with
  | none =>
      simp only [logged_iff_of_none hlog]
      exact ensures_pure ⟨world.tree, rfl, rfl⟩
  | some log =>
      simp only [logged_iff_of_some hlog]
      exact ensures_change fun failure => fault?_append

end Session

end Directives
