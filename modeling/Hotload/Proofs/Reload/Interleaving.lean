import Mathlib
import Hotload.Reload.Orchestrator

/-!
# Reloads under every interleaving

An orchestrator is told of changes, of troubles and of the end of its quiet period in an order that
nobody knows, and it may be left and taken up again in between. Its course keeps a diary of what
happened and when; what is shown of a course holds for every order.

* `Course.Step`: what can happen next. A reload takes as long as it takes.
* `Course.Reaches`: the courses from a new orchestrator on.
* `Course.Sound`: what every step preserves.
* `Course.Takes`: a course that goes on and takes messages in.
* `Course.takes_run`: so does the loop.
* `reloads_in_step`: no change is lost, and reloads do not crowd.
-/

namespace Hotload

/-- Something that happened to an orchestrator. -/
inductive Occurrence where
  /-- A change was passed on. -/
  | change (time : Nat)
  | reload (start done : Nat)
  /-- The end of a quiet period was handled. -/
  | expiry (time : Nat)

/-- A change was passed on. -/
def Occurrence.isChange : Occurrence → Bool
  | .change _ => true
  | _ => false

/-- A change has come since the last reload. The latest occurrence stands first. -/
def changedSinceReload : List Occurrence → Bool
  | [] => false
  | .change _ :: _ => true
  | .reload .. :: _ => false
  | .expiry _ :: diary => changedSinceReload diary

/-- A reload has started since the last change. The latest occurrence stands first. -/
def reloadedSinceChange : List Occurrence → Bool
  | [] => false
  | .change _ :: _ => false
  | .reload .. :: _ => true
  | .expiry _ :: diary => reloadedSinceChange diary

theorem reloadedSinceChange_of_not_changed {diary : List Occurrence}
    (h : changedSinceReload diary = false) (hchange : ∃ time, .change time ∈ diary) :
    reloadedSinceChange diary = true := by
  induction diary with
  | nil => simp at hchange
  | cons occurrence diary ih =>
    cases occurrence with
    | change time => simp [changedSinceReload] at h
    | reload start done => rfl
    | expiry time => exact ih h (by simpa using hchange)

/-- Where both are reloads, the later one starts a quiet period after the end of the earlier one or
later. -/
def Occurrence.KeepsQuiet (quiet : Nat) : Occurrence → Occurrence → Prop
  | .reload start _, .reload _ done => done + quiet ≤ start
  | _, _ => True

/-- The target with a diary of what the orchestrator does to it between two times. -/
def Target.recorded {τ : Type} (T : Target τ) (start done : Nat) : Target (τ × List Occurrence) where
  invalidate p t := (T.invalidate p t.1, .change start :: t.2)
  reload t := (T.reload t.1, .reload start done :: t.2)
  onWorld f t := (T.onWorld f t.1, t.2)

/-- An orchestrator and its target at a time, with what has happened so far, the latest first. -/
structure Course (τ : Type) where
  orchestrator : Orchestrator
  target : τ
  now : Nat
  diary : List Occurrence

namespace Course

variable {τ : Type}

/-- Nothing has happened yet. -/
def start (quiet : Nat) (t : τ) (now : Nat) : Course τ := ⟨.new quiet, t, now, []⟩

/-- The course after the orchestrator has done something that ended at a time. -/
def after (now : Nat) (next : Orchestrator × τ × List Occurrence) : Course τ :=
  ⟨next.1, next.2.1, now, next.2.2⟩

/-- What can happen next. The end of a quiet period is noticed when it has come or later, a message
at any time; troubles and exits only write to the log, and nothing at all may happen for a while. -/
inductive Step (T : Target τ) : Course τ → Course τ → Prop where
  | change (c : Course τ) (p : Path) {start done : Nat} (hstart : c.now ≤ start)
      (hdone : start ≤ done) :
      Step T c
        (after done (c.orchestrator.change (T.recorded start done) p done (c.target, c.diary)))
  | expiry (c : Course τ) {limit start done : Nat}
      (hquiet : c.orchestrator.clock.quietUntil = some limit) (hlimit : limit ≤ start)
      (hstart : c.now ≤ start) (hdone : start ≤ done) :
      Step T c
        (after done (c.orchestrator.elapse (T.recorded start done) done
          (c.target, .expiry start :: c.diary)))
  | log (c : Course τ) (f : World → World) : Step T c { c with target := T.onWorld f c.target }
  | wait (c : Course τ) {now : Nat} (hnow : c.now ≤ now) : Step T c { c with now }

/-- The courses that a new orchestrator can take. -/
inductive Reaches (T : Target τ) (quiet : Nat) : Course τ → Prop where
  | start (t : τ) (now : Nat) : Reaches T quiet (Course.start quiet t now)
  | step {c c' : Course τ} (h : Reaches T quiet c) (hstep : Step T c c') : Reaches T quiet c'

/-! ## What every step preserves -/

/-- The clock agrees with the diary. While the timer is armed, it is armed for a quiet period after
the last reload at least; without it, this time is over. -/
structure Sound (quiet : Nat) (c : Course τ) : Prop where
  period : c.orchestrator.quietPeriod = quiet
  armed : c.orchestrator.clock.inProgress = c.orchestrator.clock.quietUntil.isSome
  pending : c.orchestrator.clock.pending = changedSinceReload c.diary
  inProgress : c.orchestrator.clock.pending = true → c.orchestrator.clock.inProgress = true
  later : ∀ start done, .reload start done ∈ c.diary →
    done + quiet ≤ c.orchestrator.clock.quietUntil.getD c.now
  apart : c.diary.Pairwise (Occurrence.KeepsQuiet quiet)

variable {T : Target τ} {quiet : Nat} {c c' : Course τ}

theorem sound_start (t : τ) (now : Nat) : Sound quiet (Course.start quiet t now) where
  period := rfl
  armed := rfl
  pending := rfl
  inProgress h := h
  later _ _ h := nomatch h
  apart := .nil

/-- A change that comes while nothing is under way starts a reload. -/
theorem change_of_idle {o : Orchestrator} (h : o.clock.inProgress = false) (p : Path)
    (start done : Nat) (t : τ × List Occurrence) :
    ∃ u, o.change (T.recorded start done) p done t =
      ({ o with
          clock := { o.clock with inProgress := true, quietUntil := some (done + o.quietPeriod) }
          reloads := o.reloads + 1 },
        u, .reload start done :: .change start :: t.2) := by
  simp only [Orchestrator.change, ReloadClock.invalidate, h]
  exact ⟨_, rfl⟩

/-- Any other change is put off. -/
theorem change_of_inProgress {o : Orchestrator} (h : o.clock.inProgress = true) (p : Path)
    (start done : Nat) (t : τ × List Occurrence) :
    ∃ u, o.change (T.recorded start done) p done t =
      ({ o with clock := { o.clock with pending := true } }, u, .change start :: t.2) := by
  simp only [Orchestrator.change, ReloadClock.invalidate, h]
  exact ⟨_, rfl⟩

/-- The end of a quiet period starts the reload that was put off. -/
theorem elapse_of_pending {o : Orchestrator} (h : o.clock.pending = true) (start done : Nat)
    (t : τ × List Occurrence) :
    ∃ u, o.elapse (T.recorded start done) done t =
      ({ o with
          clock := { o.clock with pending := false, quietUntil := some (done + o.quietPeriod) }
          reloads := o.reloads + 1 },
        u, .reload start done :: t.2) := by
  simp only [Orchestrator.elapse, ReloadClock.elapse, h]
  exact ⟨_, rfl⟩

/-- Without one, nothing is under way any more. -/
theorem elapse_of_not_pending {o : Orchestrator} (h : o.clock.pending = false) (start done : Nat)
    (t : τ × List Occurrence) :
    o.elapse (T.recorded start done) done t =
      ({ o with clock := { o.clock with inProgress := false, quietUntil := none } }, t) := by
  simp only [Orchestrator.elapse, ReloadClock.elapse, h]
  rfl

theorem Sound.change (h : Sound quiet c) (p : Path) {start done : Nat} (hstart : c.now ≤ start)
    (hdone : start ≤ done) :
    Sound quiet
      (after done (c.orchestrator.change (T.recorded start done) p done (c.target, c.diary))) := by
  cases hprogress : c.orchestrator.clock.inProgress with
  | false =>
    have hnone : c.orchestrator.clock.quietUntil = none := by
      simpa [hprogress] using h.armed
    have hover : ∀ s d, .reload s d ∈ c.diary → d + quiet ≤ c.now := by
      simpa [hnone] using h.later
    have hpending : c.orchestrator.clock.pending = false := by
      by_contra hp
      simp [h.inProgress (by simpa using hp)] at hprogress
    obtain ⟨u, hu⟩ := change_of_idle (T := T) hprogress p start done (c.target, c.diary)
    rw [hu]
    refine ⟨h.period, rfl, hpending, fun _ => rfl, fun s d hmem => ?_, ?_⟩
    · simp only [after, Option.getD_some, h.period]
      rcases List.mem_cons.1 hmem with heq | hmem
      · cases heq
        exact le_rfl
      · have := hover s d (by simpa using hmem)
        omega
    · refine .cons (fun o ho => ?_) (.cons (fun _ _ => trivial) h.apart)
      cases o with
      | reload s d => exact (hover s d (by simpa using ho)).trans hstart
      | change | expiry => trivial
  | true =>
    obtain ⟨u, hu⟩ := change_of_inProgress (T := T) hprogress p start done (c.target, c.diary)
    obtain ⟨limit, hlimit⟩ : ∃ limit, c.orchestrator.clock.quietUntil = some limit := by
      simpa [hprogress, Option.isSome_iff_exists] using h.armed
    rw [hu]
    refine ⟨h.period, h.armed, rfl, fun _ => hprogress, fun s d hmem => ?_, ?_⟩
    · have := h.later s d (by simpa [after] using hmem)
      simpa [after, hlimit] using this
    · exact .cons (fun _ _ => trivial) h.apart

theorem Sound.expiry (h : Sound quiet c) {limit start done : Nat}
    (hquiet : c.orchestrator.clock.quietUntil = some limit) (hlimit : limit ≤ start)
    (hdone : start ≤ done) :
    Sound quiet
      (after done (c.orchestrator.elapse (T.recorded start done) done
        (c.target, .expiry start :: c.diary))) := by
  have hover : ∀ s d, .reload s d ∈ c.diary → d + quiet ≤ limit := by
    simpa [hquiet] using h.later
  have hpending := h.pending
  cases hp : c.orchestrator.clock.pending with
  | true =>
    obtain ⟨u, hu⟩ :=
      elapse_of_pending (T := T) hp start done (c.target, .expiry start :: c.diary)
    have harmed : c.orchestrator.clock.inProgress = true := h.inProgress hp
    rw [hu]
    refine ⟨h.period, harmed, rfl, fun _ => harmed, fun s d hmem => ?_, ?_⟩
    · simp only [after, Option.getD_some, h.period]
      rcases List.mem_cons.1 hmem with heq | hmem
      · cases heq
        exact le_rfl
      · have := hover s d (by simpa using hmem)
        omega
    · refine .cons (fun o ho => ?_) (.cons (fun _ _ => trivial) h.apart)
      cases o with
      | reload s d => exact (hover s d (by simpa using ho)).trans hlimit
      | change | expiry => trivial
  | false =>
    rw [elapse_of_not_pending hp]
    refine ⟨h.period, rfl, h.pending, fun hp' => ?_, fun s d hmem => ?_, ?_⟩
    · exact absurd (hp.symm.trans hp') (by decide)
    · have := hover s d (by simpa [after] using hmem)
      simp only [after, Option.getD_none]
      omega
    · exact .cons (fun _ _ => trivial) h.apart

theorem Sound.step (h : Sound quiet c) (hstep : Step T c c') : Sound quiet c' := by
  cases hstep with
  | change p hstart hdone => exact h.change p hstart hdone
  | expiry hquiet hlimit hstart hdone => exact h.expiry hquiet hlimit hdone
  | log f => exact ⟨h.period, h.armed, h.pending, h.inProgress, h.later, h.apart⟩
  | wait hnow =>
    refine ⟨h.period, h.armed, h.pending, h.inProgress, fun s d hmem => ?_, h.apart⟩
    have := h.later s d hmem
    cases hq : c.orchestrator.clock.quietUntil with
    | none =>
      simp only [hq, Option.getD_none] at this ⊢
      omega
    | some limit => simpa [hq] using this

theorem Reaches.sound (h : Reaches T quiet c) : Sound quiet c := by
  induction h with
  | start t now => exact sound_start t now
  | step _ hstep ih => exact ih.step hstep

/-! ## The loop -/

/-- The orchestrator of the course, taken up with these messages. -/
def waiting (c : Course τ) (inbox : Inbox) : Waiting τ := ⟨inbox, c.now, c.orchestrator, c.target⟩

/-- The course after a message has been taken in at once. -/
def received (T : Target τ) (c : Course τ) : Event → Course τ
  | .changed p =>
    after c.now (c.orchestrator.change (T.recorded c.now c.now) p c.now (c.target, c.diary))
  | .trouble e => { c with target := T.onWorld (·.note "watch" e.message) c.target }
  | .shutdown => { c with target := T.onWorld (·.debug "reload" "shutting down") c.target }

theorem step_received (c : Course τ) (event : Event) : Step T c (c.received T event) := by
  cases event with
  | changed p => exact .change c p le_rfl le_rfl
  | trouble e => exact .log c (·.note "watch" e.message)
  | shutdown => exact .log c (·.debug "reload" "shutting down")

/-- How many changes have been passed on. -/
def changes (c : Course τ) : Nat := c.diary.countP Occurrence.isChange

/-- A course goes on by steps and takes these messages in on its way. No change is passed on that is
not one of them. -/
inductive Takes (T : Target τ) : Course τ → List Event → Course τ → Prop where
  | nil (c : Course τ) : Takes T c [] c
  | message {c c' : Course τ} {event : Event} {events : List Event}
      (h : Takes T (c.received T event) events c') : Takes T c (event :: events) c'
  | step {c c' c'' : Course τ} {events : List Event} (hstep : Step T c c')
      (hchanges : c'.changes = c.changes) (h : Takes T c' events c'') : Takes T c events c''

theorem Takes.append {events events' : List Event} {c'' : Course τ} (h : Takes T c events c')
    (h' : Takes T c' events' c'') : Takes T c (events ++ events') c'' := by
  induction h with
  | nil => exact h'
  | message _ ih => exact .message (ih h')
  | step hstep hchanges _ ih => exact .step hstep hchanges (ih h')

theorem Takes.reaches {events : List Event} (h : Takes T c events c') (hc : Reaches T quiet c) :
    Reaches T quiet c' := by
  induction h with
  | nil => exact hc
  | message _ ih => exact ih (hc.step (step_received _ _))
  | step hstep _ _ ih => exact ih (hc.step hstep)

/-- The diary does not change what the orchestrator does. -/
theorem change_recorded (o : Orchestrator) (p : Path) (start done : Nat)
    (t : τ × List Occurrence) :
    (o.change (T.recorded start done) p done t).1 = (o.change T p done t.1).1 ∧
      (o.change (T.recorded start done) p done t).2.1 = (o.change T p done t.1).2 := by
  cases h : o.clock.inProgress <;>
    simp [Orchestrator.change, ReloadClock.invalidate, h, Orchestrator.reload, Target.recorded]

/-- So it is at the end of a quiet period, and no change is passed on there. -/
theorem elapse_recorded (o : Orchestrator) (start done : Nat) (t : τ × List Occurrence) :
    (o.elapse (T.recorded start done) done t).1 = (o.elapse T done t.1).1 ∧
      (o.elapse (T.recorded start done) done t).2.1 = (o.elapse T done t.1).2 ∧
      (o.elapse (T.recorded start done) done t).2.2.countP Occurrence.isChange =
        t.2.countP Occurrence.isChange := by
  cases h : o.clock.pending <;>
    simp [Orchestrator.elapse, ReloadClock.elapse, h, Orchestrator.reload, Target.recorded,
      Occurrence.isChange]

/-- A message is taken in as the course says. -/
theorem waiting_receive (c : Course τ) (inbox : Inbox) (event : Event) :
    ((c.waiting inbox).receive T event).2 = (c.received T event).waiting inbox := by
  cases event with
  | changed p =>
    obtain ⟨horchestrator, htarget⟩ :=
      change_recorded (T := T) c.orchestrator p c.now c.now (c.target, c.diary)
    simp only [Waiting.receive, Waiting.after, waiting, received, after, horchestrator, htarget]
  | trouble e => rfl
  | shutdown => rfl

/-- The time that passes while no message comes takes none in. -/
theorem takes_pass (c : Course τ) (inbox : Inbox) {deadline : Option Nat}
    (hdeadline : ¬ deadline.any (· ≤ c.now) = true) :
    ∃ c', Takes T c [] c' ∧ ((c.waiting inbox).pass T deadline).2 = c'.waiting inbox := by
  rw [Waiting.pass]
  split
  · rename_i limit hlimit
    have hnow : c.now ≤ limit := by
      have hmem := (Option.filter_eq_some_iff.1 hlimit).1
      simp only [hmem, Option.any_some, decide_eq_true_eq] at hdeadline
      omega
    exact ⟨_, .step (.wait c hnow) rfl (.nil _), rfl⟩
  · rename_i limit _ hquiet
    obtain ⟨horchestrator, htarget, hchanges⟩ :=
      elapse_recorded (T := T) c.orchestrator (max c.now limit) (max c.now limit)
        (c.target, .expiry (max c.now limit) :: c.diary)
    refine ⟨_, .step (.expiry c hquiet (le_max_right c.now limit) (le_max_left _ _) le_rfl)
      (hchanges.trans (List.countP_cons_of_neg Bool.false_ne_true)) (.nil _), ?_⟩
    simp only [Waiting.after, waiting, after, horchestrator, htarget]
  · exact ⟨c, .nil c, rfl⟩

/-- A step of the loop takes in at most one message. Where it leads to an exit, messages are left only
after one to shut down or at the deadline. -/
theorem takes_waitingStep (c : Course τ) (inbox : Inbox) (deadline : Option Nat) :
    ∃ c' taken left, Takes T c taken c' ∧ inbox.events = taken ++ left ∧
      (((c.waiting inbox).step T deadline).1.isSome = true →
        left = [] ∨ .shutdown ∈ taken ∨ deadline.any (· ≤ c'.now) = true) ∧
      ((c.waiting inbox).step T deadline).2 = c'.waiting { inbox with events := left } := by
  rw [Waiting.step]
  split
  · rename_i hdeadline
    exact ⟨c, [], inbox.events, .nil c, rfl, fun _ => .inr (.inr hdeadline), rfl⟩
  · rename_i hdeadline
    split
    · rename_i event events hevents
      refine ⟨c.received T event, [event], events, .message (.nil _), hevents, fun hexit => ?_,
        waiting_receive c { inbox with events } event⟩
      cases event with
      | shutdown => exact .inr (.inl List.mem_cons_self)
      | changed | trouble => cases hexit
    · rename_i hnil
      have hinbox : { inbox with events := [] } = inbox :=
        congrArg (Inbox.mk · inbox.closed) (Eq.symm hnil)
      split
      · exact ⟨_, [], [], .step (.log c (·.debug "reload" "shutting down")) rfl (.nil _), hnil,
          fun _ => .inl rfl, by rw [hinbox]; rfl⟩
      · obtain ⟨c', htakes, heq⟩ := takes_pass (T := T) c inbox hdeadline
        exact ⟨c', [], [], htakes, hnil, fun _ => .inl rfl, by rw [hinbox]; exact heq⟩

/-- Up to an exit, the loop goes on by steps of the course and takes in messages from the front of the
inbox. Messages are left only after one to shut down or at the deadline. -/
theorem takes_run (c : Course τ) (inbox : Inbox) (deadline : Option Nat) :
    ∃ c' taken left, Takes T c taken c' ∧ inbox.events = taken ++ left ∧
      (left = [] ∨ .shutdown ∈ taken ∨ deadline.any (· ≤ c'.now) = true) ∧
      ((c.waiting inbox).run T deadline).2 = c'.waiting { inbox with events := left } := by
  generalize hs : c.waiting inbox = s
  induction s using Waiting.run.induct T deadline generalizing c inbox with
  | case1 s exit s' hstep =>
    obtain ⟨c', taken, left, htakes, hevents, hleft, heq⟩ :=
      takes_waitingStep (T := T) c inbox deadline
    rw [hs, hstep] at hleft heq
    refine ⟨c', taken, left, htakes, hevents, hleft rfl, ?_⟩
    rw [Waiting.run, hstep]
    exact heq
  | case2 s s' hstep ih =>
    obtain ⟨c', taken, left, htakes, hevents, -, heq⟩ :=
      takes_waitingStep (T := T) c inbox deadline
    rw [hs, hstep] at heq
    obtain ⟨c'', taken', left', htakes', hevents', hleft', heq'⟩ :=
      ih c' { inbox with events := left } heq.symm
    have hsplit : inbox.events = taken ++ taken' ++ left' := by
      rw [hevents, List.append_assoc]
      exact congrArg (taken ++ ·) hevents'
    refine ⟨c'', taken ++ taken', left', htakes.append htakes', hsplit,
      hleft'.imp_right (.imp_left (List.mem_append_right _)), ?_⟩
    rw [Waiting.run, hstep]
    exact heq'

/-- The clock, the target and the loop at this point of a course. -/
structure InStep (T : Target τ) (quiet : Nat) (c : Course τ) : Prop where
  /-- A reload is in progress exactly while the quiet timer is armed. -/
  armed : c.orchestrator.clock.inProgress = true ↔ c.orchestrator.clock.quietUntil.isSome = true
  /-- A change is put off only while a reload is in progress. -/
  pending : c.orchestrator.clock.pending = true → c.orchestrator.clock.inProgress = true
  /-- If a change has come and none is put off, a reload has started since the last one. -/
  kept : (∃ time, .change time ∈ c.diary) → c.orchestrator.clock.pending = false →
    reloadedSinceChange c.diary = true
  /-- Every reload keeps its distance to each earlier one. -/
  apart : c.diary.Pairwise (Occurrence.KeepsQuiet quiet)
  /-- The end of a quiet period starts one reload if a change has come in it, and none otherwise. -/
  expiry : ∀ start done, (c.orchestrator.elapse (T.recorded start done) done (c.target, [])).2.2 =
    if changedSinceReload c.diary then [.reload start done] else []
  /-- However the loop is entered from here, the course goes on up to its exit. The messages are taken
  in from the front of the inbox, and some are left there only after one to shut down or at the
  deadline. -/
  run : ∀ inbox deadline, ∃ (c' : Course τ) (taken left : List Event), c'.Reaches T quiet ∧
    c.Takes T taken c' ∧ inbox.events = taken ++ left ∧
    (left = [] ∨ .shutdown ∈ taken ∨ deadline.any (· ≤ c'.now) = true) ∧
    ((c.waiting inbox).run T deadline).2 = c'.waiting { inbox with events := left }

end Course

/-- Changes, troubles, ends of quiet periods, deadlines and new runs may come in any order: no
change is lost, and reloads do not crowd. -/
theorem reloads_in_step {τ : Type} {T : Target τ} {quiet : Nat} {c : Course τ}
    (h : c.Reaches T quiet) : c.InStep T quiet where
  armed := by rw [h.sound.armed]
  pending := h.sound.inProgress
  kept hchange hpending := reloadedSinceChange_of_not_changed (h.sound.pending ▸ hpending) hchange
  apart := h.sound.apart
  expiry start done := by
    rw [← h.sound.pending]
    cases hp : c.orchestrator.clock.pending with
    | true =>
      obtain ⟨u, hu⟩ := Course.elapse_of_pending (T := T) hp start done (c.target, [])
      simp [hu]
    | false => simp [Course.elapse_of_not_pending (T := T) hp]
  run inbox deadline := by
    obtain ⟨c', taken, left, htakes, hevents, hleft, hrun⟩ :=
      Course.takes_run (T := T) c inbox deadline
    exact ⟨c', taken, left, htakes.reaches h, htakes, hevents, hleft, hrun⟩

/-- A change in the quiet period after a reload of three milliseconds waits for its end. -/
theorem reloads_in_step_burst : ∃ c : Course Unit,
    c.Reaches ⟨fun _ => id, id, fun _ => id⟩ 5 ∧
      c.diary = [.reload 8 9, .expiry 8, .change 4, .reload 0 3, .change 0] ∧
      c.InStep ⟨fun _ => id, id, fun _ => id⟩ 5 := by
  let T : Target Unit := ⟨fun _ => id, id, fun _ => id⟩
  have hstart : (Course.start 5 () 0).Reaches T 5 := .start () 0
  have hfirst := hstart.step (.change _ ⟨"/app/a.rl"⟩ (le_refl 0) (by decide : 0 ≤ 3))
  have hsecond := hfirst.step (.change _ ⟨"/app/b.rl"⟩ (by decide : 3 ≤ 4) (le_refl 4))
  have hthird := hsecond.step
    (.expiry _ rfl (by decide : 8 ≤ 8) (by decide : 4 ≤ 8) (by decide : 8 ≤ 9))
  exact ⟨_, hthird, rfl, reloads_in_step hthird⟩

end Hotload
