import Mathlib
import Hotload.Proofs.Evaluation.Identical
import Hotload.Proofs.Module.Standing

/-!
# The chronicle is true

At every moment of every run, nested as it may be, the registry holds exactly the exports that the
chronicle tells of, every event fits those before it, and a request for live exports is answered at
once. Between two moments of one request from outside, modules stay as they stand once their bodies
have started or ended.

* `Chronicle.Sound`: what holds at every moment.
* `Chronicle.Later`: what holds between two moments.
* `Chronicle.hosts`: requests of programs keep both, and the module system does the same with its
  chronicle and without it.
-/

namespace Hotload

/-! ## What holds at every moment -/

namespace Chronicle

/-- The registry holds what the events say, and the events are in order. -/
structure Sound (c : Chronicle) : Prop where
  live : ∀ p, c.system.registry.exports? p = (standing p c.events).exports?
  fits : AllFit c.events
  prompt : Prompt c.events

/-- What happens while a request from outside is served: no exports are invalidated; a module that has
exports keeps them, and one that has none has none or has run to its end; no parsed body is lost. -/
structure Later (c c' : Chronicle) : Prop where
  events : ∃ new, c'.events = c.events ++ new ∧ ∀ p, .invalidated p ∉ new
  standing : ∀ p, standing p c'.events = standing p c.events ∨
    standing p c.events = .idle ∧ ∃ v, standing p c'.events = .done v
  compiled : ∀ p program, c.system.registry.compiled? p = some program →
    c'.system.registry.compiled? p = some program

theorem Later.refl (c : Chronicle) : Later c c :=
  ⟨⟨[], by simp, by simp⟩, fun _ => .inl rfl, fun _ _ h => h⟩

theorem Later.trans {c c' c'' : Chronicle} (h : Later c c') (h' : Later c' c'') : Later c c'' where
  events := by
    obtain ⟨new, hnew, hcalm⟩ := h.events
    obtain ⟨new', hnew', hcalm'⟩ := h'.events
    exact ⟨new ++ new', by rw [hnew', hnew, List.append_assoc], fun p hp =>
      (List.mem_append.1 hp).elim (hcalm p) (hcalm' p)⟩
  standing p := by
    rcases h.standing p with hp | ⟨hp, v, hv⟩ <;> rcases h'.standing p with hp' | ⟨hp', v', hv'⟩
    · exact .inl (hp'.trans hp)
    · exact .inr ⟨by rw [← hp, hp'], v', hv'⟩
    · exact .inr ⟨hp, v, by rw [hp', hv]⟩
    · rw [hv] at hp'
      cases hp'
  compiled p program hp := h'.compiled p program (h.compiled p program hp)

instance : Preorder Chronicle where
  le := Later
  le_refl := Later.refl
  le_trans _ _ _ := Later.trans

variable {c : Chronicle} {s : ModuleSystem} {e : ModuleEvent} {p : Path} {v : Value}

/-- A step that only the module system takes. -/
theorem Sound.step (h : c.Sound)
    (hs : ∀ p, s.registry.exports? p = c.system.registry.exports? p) : Sound ⟨s, c.events⟩ :=
  ⟨fun p => (hs p).trans (h.live p), h.fits, h.prompt⟩

/-- A step that is written down. -/
theorem Sound.snoc (h : c.Sound) (hfits : Fits c.events e)
    (hasked : ∀ asker p, e = .asked asker p → Hotload.standing p c.events = .idle)
    (hlive : ∀ p, s.registry.exports? p = ((Hotload.standing p c.events).next p e).exports?) :
    Sound ⟨s, c.events ++ [e]⟩ :=
  ⟨fun p => by rw [hlive p, standing_snoc], h.fits.snoc hfits, h.prompt.snoc hasked⟩

theorem standing_idle_iff (h : c.Sound) :
    Hotload.standing p c.events = .idle ↔ c.system.registry.exports? p = none := by
  rw [h.live p]
  cases Hotload.standing p c.events <;> simp [Standing.exports?]

/-! ## Runs with and without the chronicle -/

/-- A run of the module system, and the same run with a chronicle at this stage. -/
def likeness : Likeness ModuleSystem Chronicle :=
  .identical Chronicle fun c e₁ e₂ => e₁.1 = e₂.1 ∧ e₁.2 = c.system ∧ e₂.2 = c ∧ c.Sound

/-- The machine with a chronicle of its module system. -/
def chronicled (m : Machine ModuleSystem) (c : Chronicle) : Machine Chronicle :=
  ⟨m.heap, m.world, m.running, m.nesting, c⟩

section

variable {α : Type} {m₁ m m' : Machine ModuleSystem} {m₂ : Machine Chronicle} {c' : Chronicle}

theorem meets_iff :
    likeness.Meets c m₁ m₂ ↔ m₁.host = c.system ∧ m₂ = chronicled m₁ c ∧ c.Sound := by
  constructor
  · rintro ⟨⟨hheap, hworld, hhost, hc, hsound⟩, hrunning, hnesting, -⟩
    obtain ⟨heap, world, running, nesting, host⟩ := m₂
    cases hheap
    cases hworld
    cases hrunning
    cases hnesting
    cases hc
    exact ⟨hhost, rfl, hsound⟩
  · rintro ⟨hhost, rfl, hsound⟩
    exact ⟨⟨rfl, rfl, hhost, rfl, hsound⟩, rfl, rfl, fun _ _ => trivial⟩

theorem outcome_inSystem {x : Run ModuleSystem α} (h : m.host = c.system) :
    (inSystem x).outcome (chronicled m c) = x.outcome m := by
  obtain ⟨heap, world, running, nesting, host⟩ := m
  cases h
  rfl

theorem after_inSystem {x : Run ModuleSystem α} (h : m.host = c.system) :
    (inSystem x).after (chronicled m c) =
      chronicled (x.after m) ⟨(x.after m).host, c.events⟩ := by
  obtain ⟨heap, world, running, nesting, host⟩ := m
  cases h
  rfl

theorem later_of_keeps (h : m.host = c.system) (hk : ModuleSystem.Keeps m m') :
    c ≤ ⟨m'.host, c.events⟩ :=
  ⟨⟨[], by simp, by simp⟩, fun _ => .inl rfl, fun p program hp => hk.compiled p program (by rwa [h])⟩

/-- A step of the module system that runs no body. -/
theorem agreeAt_inSystem {x : Run ModuleSystem α} (hm : likeness.Meets c m₁ m₂)
    (hk : ModuleSystem.Keeps m₁ (x.after m₁)) :
    likeness.AgreeAt c (fun _ => Eq) x (inSystem x) m₁ m₂ := by
  obtain ⟨hhost, rfl, hsound⟩ := meets_iff.1 hm
  refine ⟨⟨⟨(x.after m₁).host, c.events⟩, later_of_keeps hhost hk, ?_, ?_⟩, hk.calls⟩
  · rw [outcome_inSystem hhost]
    cases x.outcome m₁ with
    | ok a => exact .ok rfl
    | error e => exact .error e
  · rw [after_inSystem hhost]
    exact meets_iff.2 ⟨rfl, rfl, hsound.step fun p => (hk.exports p).trans (by rw [hhost])⟩

theorem agree_inSystem {x : Run ModuleSystem α} (hk : ∀ m, ModuleSystem.Keeps m (x.after m)) :
    likeness.Agree c (fun _ => Eq) x (inSystem x) :=
  fun _ _ m₁ _ hm => agreeAt_inSystem hm (hk m₁)

theorem agree_onHeap_same (f : Heap → α × Heap) :
    likeness.Agree c (fun _ => Eq) (Run.onHeap f) (Run.onHeap f) := by
  refine Likeness.agree_onHeap fun c' _ h₁ h₂ e₁ e₂ ha => ?_
  obtain ⟨rfl, hk⟩ := ha
  exact ⟨c', le_rfl, rfl, rfl, hk⟩

theorem agree_modifyWorld (f : World → World) :
    likeness.Agree c (fun _ _ _ => True) (Run.modifyWorld f) (Run.modifyWorld f) := by
  intro c' _ m₁ m₂ hm
  obtain ⟨hhost, rfl, hsound⟩ := meets_iff.1 hm
  exact .of_ok rfl rfl le_rfl trivial (meets_iff.2 ⟨hhost, rfl, hsound⟩) (.of_eq rfl rfl)

/-! ## Bodies -/

variable {run₁ : Runner ModuleSystem} {run₂ : Runner Chronicle}

theorem agree_runBody (hr : likeness.Runners run₁ run₂) (program : List Syntax.Stmt) (p : Path)
    (exports : ObjectRef) :
    likeness.Agree c (fun _ => Eq) (ModuleSystem.runBody run₁ program p exports)
      (runBody run₂ program p exports) := by
  refine (agree_onHeap_same _).bind fun c₁ _ a b hab => ?_
  subst hab
  refine Likeness.Agree.bind (agree_inSystem fun m => ?_) fun c₂ _ _ _ _ => ?_
  · exact ⟨.of_eq rfl rfl, fun q => Registry.exports?_setScope _ p a.1 q,
      fun q _ hq => (Registry.compiled?_setScope _ p a.1 q).trans hq⟩
  refine (agree_modifyWorld _).bind fun c₃ _ _ _ _ => ?_
  refine (hr c₃ program a.1 a.1 p rfl trivial).bind fun c₄ _ _ _ _ => ?_
  exact .heap_bind fun c₅ _ m₁ m₂ hm => .pure hm (by rw [hm.alike.1])

/-- The chronicle when a body starts. -/
def begun (c : Chronicle) (p : Path) (exports : ObjectRef) : Chronicle :=
  ⟨{ c.system with registry := c.system.registry.setExports p (.object exports) },
    c.events ++ [.started p exports]⟩

theorem sound_begun (h : c.Sound) (hidle : Hotload.standing p c.events = .idle)
    (exports : ObjectRef) : (begun c p exports).Sound := by
  refine h.snoc hidle (by simp) fun q => ?_
  rw [Registry.exports?_setExports]
  simp only [Standing.next]
  split
  · rfl
  · exact h.live q

/-- A body that was started and has been under way for a while ends. What the registry and the events
say of its path is all that changes. -/
theorem sound_ended (h : c'.Sound) {exports : ObjectRef} (hlater : begun c p exports ≤ c')
    (hfits : ∀ events, (∃ exports, Hotload.standing p events = .running exports) → Fits events e)
    (hcalm : ∀ q, e ≠ .invalidated q) (hasked : ∀ asker q, e ≠ .asked asker q)
    {t : Standing} (hnext : ∀ q s', Standing.next q s' e = if p.same q then t else s')
    (hidle : Hotload.standing p c.events = .idle) (ht : t = .idle ∨ ∃ v, t = .done v)
    (hlive : ∀ q, s.registry.exports? q =
      if p.same q then t.exports? else c'.system.registry.exports? q)
    (hcompiled : ∀ q, s.registry.compiled? q = c'.system.registry.compiled? q) :
    c ≤ ⟨s, c'.events ++ [e]⟩ ∧ Sound ⟨s, c'.events ++ [e]⟩ := by
  have hrunning : Hotload.standing p c'.events = .running exports := by
    have hstart : Hotload.standing p (begun c p exports).events = .running exports := by
      simp [begun, Standing.next]
    rcases hlater.standing p with hsame | ⟨hi, -⟩
    · rw [hsame, hstart]
    · rw [hstart] at hi
      cases hi
  refine ⟨⟨?_, fun q => ?_, fun q program hq => ?_⟩, h.snoc (hfits _ ⟨exports, hrunning⟩)
    (fun asker q he => absurd he (hasked asker q)) fun q => ?_⟩
  · obtain ⟨new, hnew, hnone⟩ := hlater.events
    refine ⟨.started p exports :: new ++ [e], by rw [hnew]; simp [begun], fun q hq => ?_⟩
    rcases List.mem_append.1 hq with hq | hq
    · rcases List.mem_cons.1 hq with hq | hq
      · cases hq
      · exact hnone q hq
    · exact hcalm q (List.mem_singleton.1 hq).symm
  · by_cases hpq : p.same q = true
    · have hq : Hotload.standing q c.events = .idle := by rw [← standing_congr hpq, hidle]
      rcases ht with rfl | ⟨v, rfl⟩
      · exact .inl (by rw [standing_snoc, hnext, if_pos hpq, hq])
      · exact .inr ⟨hq, v, by rw [standing_snoc, hnext, if_pos hpq]⟩
    · have hbegun : Hotload.standing q (begun c p exports).events = Hotload.standing q c.events := by
        simp [begun, Standing.next, hpq]
      have hq := hlater.standing q
      rw [hbegun] at hq
      rwa [standing_snoc, hnext, if_neg hpq]
  · refine (hcompiled q).trans (hlater.compiled q program ?_)
    exact (Registry.compiled?_setExports _ p _ q).trans hq
  · rw [hlive q, hnext]
    split
    · rfl
    · exact h.live q

theorem agreeAt_evaluate (hr : likeness.Runners run₁ run₂) (program : List Syntax.Stmt)
    (hm : likeness.Meets c m₁ m₂) (hidle : Hotload.standing p c.events = .idle) :
    likeness.AgreeAt c (fun c' v w => v = w ∧ Hotload.standing p c'.events = .done w)
      (ModuleSystem.evaluate run₁ program p) (evaluate run₂ program p) m₁ m₂ := by
  obtain ⟨hhost, rfl, hsound⟩ := meets_iff.1 hm
  -- the state in which the body starts
  let exports := (m₁.heap.newObject []).1
  let start : Machine ModuleSystem :=
    { m₁ with heap := (m₁.heap.newObject []).2, host := (begun c p exports).system }
  have hstart : likeness.Meets (begun c p exports) start (chronicled start (begun c p exports)) :=
    meets_iff.2 ⟨rfl, rfl, sound_begun hsound hidle exports⟩
  obtain ⟨⟨c', hlater, hout, hmeets⟩, hcalls⟩ :=
    (agree_runBody hr program p exports).at hstart
  obtain ⟨hhost', hafter, hsound'⟩ := meets_iff.1 hmeets
  let body₁ := ModuleSystem.runBody run₁ program p exports
  let body₂ := runBody run₂ program p exports
  have hreal : (ModuleSystem.evaluate run₁ program p).run m₁ =
      (ModuleSystem.conclude p (body₁.outcome start)).run (body₁.after start) := by
    obtain ⟨heap, world, running, nesting, host⟩ := m₁
    cases hhost
    rfl
  have hnoted : (evaluate run₂ program p).run (chronicled m₁ c) =
      (conclude p (body₂.outcome (chronicled start (begun c p exports)))).run
        (chronicled (body₁.after start) c') := by
    rw [← hafter]
    rfl
  have hsame : m₁.SameCalls (body₁.after start) :=
    (Machine.SameCalls.of_eq rfl rfl : m₁.SameCalls start).trans hcalls
  simp only [body₁, body₂] at hreal hnoted hsame
  generalize (ModuleSystem.runBody run₁ program p exports).outcome start = o₁ at hout hreal
  generalize (runBody run₂ program p exports).outcome _ = o₂ at hout hnoted
  generalize (ModuleSystem.runBody run₁ program p exports).after start = m at *
  cases hout with
  | @ok v w hvw =>
    subst hvw
    obtain ⟨hlater', hsound''⟩ := sound_ended hsound' hlater (e := .finished p v)
      (s := { c'.system with registry := c'.system.registry.setExports p v }) (t := .done v)
      (fun _ h => h) (by simp) (by simp) (fun _ _ => rfl) hidle (.inr ⟨v, rfl⟩)
      (fun q => Registry.exports?_setExports _ p v q)
      (fun q => Registry.compiled?_setExports _ p v q)
    refine ⟨⟨_, hlater', ?_, meets_iff.2 ⟨?_, ?_, hsound''⟩⟩, ?_⟩
    · rw [Run.outcome, Run.outcome, hreal, hnoted]
      exact .ok ⟨rfl, by simp [Standing.next]⟩
    · rw [Run.after, hreal]
      exact congrArg (fun s : ModuleSystem => { s with registry := s.registry.setExports p v }) hhost'
    · rw [Run.after, Run.after, hreal, hnoted]
      rfl
    · rw [Run.after, hreal]
      exact hsame.trans (.of_eq rfl rfl)
  | error e =>
    obtain ⟨hlater', hsound''⟩ := sound_ended hsound' hlater (e := .failed p e)
      (s := { c'.system with registry := c'.system.registry.removeExports p }) (t := .idle)
      (fun _ h => h) (by simp) (by simp) (fun _ _ => rfl) hidle (.inl rfl)
      (fun q => Registry.exports?_removeExports _ p q)
      (fun q => Registry.compiled?_removeExports _ p q)
    refine ⟨⟨_, hlater', ?_, meets_iff.2 ⟨?_, ?_, hsound''⟩⟩, ?_⟩
    · rw [Run.outcome, Run.outcome, hreal, hnoted]
      exact .error e
    · rw [Run.after, hreal]
      exact congrArg (fun s : ModuleSystem => { s with registry := s.registry.removeExports p }) hhost'
    · rw [Run.after, Run.after, hreal, hnoted]
      rfl
    · rw [Run.after, hreal]
      exact hsame.trans (.of_eq rfl rfl)

/-! ## Requests -/

/-- The exports of a script file that has none that are live. -/
theorem agreeAt_requireScript (hr : likeness.Runners run₁ run₂) (hm : likeness.Meets c m₁ m₂)
    (hidle : Hotload.standing p c.events = .idle) :
    likeness.AgreeAt c (fun c' v w => v = w ∧ Hotload.standing p c'.events = .done w)
      (ModuleSystem.requireScript run₁ p) (requireScript run₂ p) m₁ m₂ := by
  have hnone : m₁.host.registry.exports? p = none := by
    obtain ⟨hhost, -, hsound⟩ := meets_iff.1 hm
    rw [hhost, hsound.live p, hidle]
    rfl
  refine (agreeAt_inSystem hm (ModuleSystem.keeps_watchSource p m₁)).bind_at
    fun c₁ _ _ _ _ _ hm₁ => ?_
  have hnone₁ := ((ModuleSystem.keeps_watchSource p m₁).exports p).trans hnone
  generalize (ModuleSystem.watchSource p).after m₁ = m at hm₁ hnone₁ ⊢
  generalize (inSystem (ModuleSystem.watchSource p)).after m₂ = m' at hm₁ ⊢
  refine .get_bind ?_
  obtain ⟨hhost, hm', -⟩ := meets_iff.1 hm₁
  have hnone₁' : m'.host.system.registry.exports? p = none := by
    rw [hm']
    exact hhost ▸ hnone₁
  simp only [hnone₁, hnone₁']
  refine (agreeAt_inSystem hm₁ (ModuleSystem.keeps_program p m)).bind_at
    fun c₂ _ body _ _ hbody hm₂ => ?_
  cases hbody
  refine agreeAt_evaluate hr body hm₂ ?_
  obtain ⟨hhost₂, -, hsound₂⟩ := meets_iff.1 hm₂
  rw [standing_idle_iff hsound₂, ← hhost₂]
  exact ((ModuleSystem.keeps_program p m).exports p).trans hnone₁

/-- The path of the code that is running. -/
def asker {σ : Type} (m : Machine σ) : Path :=
  match m.running.stack with
  | [] => ⟨""⟩
  | activation :: _ => activation.path

/-- The machine with another event written down. -/
def noted (m : Machine Chronicle) (e : ModuleEvent) : Machine Chronicle :=
  { m with host := { m.host with events := m.host.events ++ [e] } }

theorem run_note_bind (e : ModuleEvent) (f : Unit → Run Chronicle α) (m : Machine Chronicle) :
    (note e >>= f).run m = (f ()).run (noted m e) := rfl

/-- The path that a path means to the machine. -/
def meant {σ : Type} (m : Machine σ) (p : Path) : Path := m.world.files.normalize p

/-- A request for a script file is written down, and so is its answer. -/
theorem run_requireModule {run : Runner Chronicle} {m : Machine Chronicle}
    (h : m.host.system.options.isScript (meant m p) = true) {inside : Except LoadError Value}
    {m' : Machine Chronicle}
    (hinside : (requireScript run (meant m p)).run (noted m (.asked (asker m) (meant m p))) =
      (inside, m')) :
    (requireModule run p).run m =
      (inside, noted m' (.answered (asker m) (meant m p) inside)) := by
  let rest (asker : Path) : Run Chronicle Value := do
    note (.asked asker (meant m p))
    let outcome ← Run.observe (requireScript run (meant m p))
    note (.answered asker (meant m p) outcome)
    Run.ofExcept outcome
  have hbranch : (requireModule run p).run m = (Run.currentPath >>= rest).run m := by
    unfold requireModule
    refine (Run.run_bind_ok rfl rfl).trans ?_
    exact congrArg (fun x : Run Chronicle Value => x.run m) (if_pos h)
  have hasker : (Run.currentPath >>= rest).run m = (rest (asker m)).run m := by
    obtain ⟨heap, world, ⟨base, stack⟩, nesting, host⟩ := m
    cases stack <;> rfl
  have hrest : (rest (asker m)).run m =
      (Run.ofExcept inside).run (noted m' (.answered (asker m) (meant m p) inside)) := by
    have houtcome := congrArg Prod.fst hinside
    have hafter := congrArg Prod.snd hinside
    rw [run_note_bind, Run.run_observe_bind, run_note_bind, Run.outcome, Run.after, houtcome, hafter]
  rw [hbranch, hasker, hrest]
  cases inside <;> rfl

/-- The chronicle with another event. -/
def snoc (c : Chronicle) (e : ModuleEvent) : Chronicle := ⟨c.system, c.events ++ [e]⟩

/-- Live exports are given at once, by the module system and with the chronicle. -/
theorem run_requireScript_live (run₁ : Runner ModuleSystem) (run₂ : Runner Chronicle)
    (hhost : m.host = c.system)
    (h : m.host.registry.exports? p = some v) :
    (ModuleSystem.requireScript run₁ p).run m = (.ok v, (ModuleSystem.watchSource p).after m) ∧
      (requireScript run₂ p).run (chronicled m c) =
        (.ok v, chronicled ((ModuleSystem.watchSource p).after m)
          ⟨((ModuleSystem.watchSource p).after m).host, c.events⟩) := by
  have hexports := ((ModuleSystem.keeps_watchSource p m).exports p).trans h
  have hwatched := ModuleSystem.outcome_watchSource p m
  have hafter := after_inSystem (x := ModuleSystem.watchSource p) hhost
  have hwatched' := (outcome_inSystem (x := ModuleSystem.watchSource p) hhost).trans hwatched
  generalize hw : (ModuleSystem.watchSource p).after m = m' at *
  constructor
  · rw [ModuleSystem.run_requireScript_kept run₁ (hw ▸ hexports), hw]
  · refine (Run.run_bind_ok hwatched' hafter).trans ((Run.run_bind_ok rfl rfl).trans ?_)
    simp only [chronicled, hexports]
    rfl

/-- A request for a script file that has live exports. -/
theorem agreeAt_requireModule_live (hm : likeness.Meets c m₁ m₂)
    (hscript : m₁.host.options.isScript (meant m₁ p) = true)
    (hv : (Hotload.standing (meant m₁ p) c.events).exports? = some v) :
    likeness.AgreeAt c likeness.Values (ModuleSystem.requireScript run₁ (meant m₁ p))
      (requireModule run₂ p) m₁ m₂ := by
  obtain ⟨hhost, rfl, hsound⟩ := meets_iff.1 hm
  have hlive : m₁.host.registry.exports? (meant m₁ p) = some v := by
    rw [hhost, hsound.live, hv]
  obtain ⟨hreal, hinside⟩ := run_requireScript_live run₁ run₂
    (c := c.snoc (.asked (asker m₁) (meant m₁ p))) hhost hlive
  have hnoted := run_requireModule (m := chronicled m₁ c) (hhost ▸ hscript) hinside
  have hkeeps := ModuleSystem.keeps_watchSource (meant m₁ p) m₁
  have hquiet : ∀ q, Hotload.standing q (c.events ++ [.asked (asker m₁) (meant m₁ p)] ++
      [.answered (asker m₁) (meant m₁ p) (.ok v)]) = Hotload.standing q c.events := by
    intro q
    rw [standing_snoc, standing_snoc]
    rfl
  refine ⟨⟨⟨((ModuleSystem.watchSource (meant m₁ p)).after m₁).host, c.events ++
      [.asked (asker m₁) (meant m₁ p)] ++ [.answered (asker m₁) (meant m₁ p) (.ok v)]⟩, ?_, ?_,
      meets_iff.2 ⟨?_, ?_, ?_⟩⟩, ?_⟩
  · refine ⟨⟨[.asked (asker m₁) (meant m₁ p), .answered (asker m₁) (meant m₁ p) (.ok v)], by simp,
      by simp⟩, fun q => .inl (hquiet q), fun q program hq => ?_⟩
    exact hkeeps.compiled q program (by rwa [hhost])
  · rw [Run.outcome, Run.outcome, hreal, hnoted]
    exact .ok (Value.paired_same v)
  · rw [Run.after, hreal]
  · rw [Run.after, Run.after, hreal, hnoted]
    rfl
  · have hfits : AllFit (c.events ++ [.asked (asker m₁) (meant m₁ p)]) := hsound.fits.snoc trivial
    refine ⟨fun q => ?_, hfits.snoc ?_, hsound.prompt.snoc_answered hv _⟩
    · rw [hkeeps.exports q, hhost, hsound.live q]
      exact congrArg Standing.exports? (hquiet q).symm
    · rw [Fits, standing_snoc]
      exact hv
  · rw [Run.after, hreal]
    exact hkeeps.calls

/-- A request for a script file that has none. -/
theorem agreeAt_requireModule_idle (hr : likeness.Runners run₁ run₂)
    (hm : likeness.Meets c m₁ m₂) (hscript : m₁.host.options.isScript (meant m₁ p) = true)
    (hidle : Hotload.standing (meant m₁ p) c.events = .idle) :
    likeness.AgreeAt c likeness.Values (ModuleSystem.requireScript run₁ (meant m₁ p))
      (requireModule run₂ p) m₁ m₂ := by
  obtain ⟨hhost, rfl, hsound⟩ := meets_iff.1 hm
  let asked : ModuleEvent := .asked (asker m₁) (meant m₁ p)
  have hasked : likeness.Meets (c.snoc asked) m₁ (chronicled m₁ (c.snoc asked)) := by
    refine meets_iff.2 ⟨hhost, rfl, hsound.snoc trivial (fun asker q h => ?_) hsound.live⟩
    obtain ⟨-, rfl⟩ : _ ∧ meant m₁ p = q := by simpa [asked] using h
    exact hidle
  obtain ⟨⟨c', hlater, hout, hmeets⟩, hcalls⟩ :=
    agreeAt_requireScript hr hasked (p := meant m₁ p) (by simpa [snoc, asked, Standing.next] using hidle)
  obtain ⟨hhost', hafter, hsound'⟩ := meets_iff.1 hmeets
  generalize hreal : (ModuleSystem.requireScript run₁ (meant m₁ p)).outcome m₁ = o₁ at hout
  generalize hinside : (requireScript run₂ (meant m₁ p)).outcome (chronicled m₁ (c.snoc asked)) = o₂
    at hout
  have hnoted := run_requireModule (m := chronicled m₁ c) (hhost ▸ hscript)
    (Prod.ext hinside hafter)
  let answered : ModuleEvent := .answered (asker m₁) (meant m₁ p) o₂
  have hfits : Fits c'.events answered := by
    cases hout with
    | ok h =>
      rw [Fits, h.2]
      rfl
    | error e => trivial
  have hstart : c ≤ c.snoc asked :=
    ⟨⟨[asked], rfl, by simp [asked]⟩, fun q => .inl (standing_snoc q _ _), fun _ _ h => h⟩
  have hend : c' ≤ snoc c' answered :=
    ⟨⟨[answered], rfl, by simp [answered]⟩, fun q => .inl (standing_snoc q _ _), fun _ _ h => h⟩
  refine ⟨⟨snoc c' answered, (hstart.trans hlater).trans hend, ?_, meets_iff.2 ⟨hhost', ?_, ?_⟩⟩,
    hcalls⟩
  · rw [hreal, show (requireModule run₂ p).outcome (chronicled m₁ c) = o₂ from
      congrArg Prod.fst hnoted]
    cases hout with
    | ok h => exact .ok (Value.paired_same_iff.2 h.1)
    | error e => exact .error e
  · exact congrArg Prod.snd hnoted
  · exact hsound'.snoc hfits (by simp [answered]) fun q => hsound'.live q

/-- The exports of a file. -/
theorem agree_requireModule (hr : likeness.Runners run₁ run₂) (p : Path) :
    likeness.Agree c likeness.Values (ModuleSystem.requireModule run₁ p) (requireModule run₂ p) := by
  intro c₀ _ m₁ m₂ hm
  by_cases hscript : m₁.host.options.isScript (meant m₁ p) = true
  · have hbranch : likeness.AgreeAt c₀ likeness.Values
        (ModuleSystem.requireScript run₁ (meant m₁ p)) (requireModule run₂ p) m₁ m₂ := by
      cases hs : Hotload.standing (meant m₁ p) c₀.events with
      | idle => exact agreeAt_requireModule_idle hr hm hscript hs
      | running exports => exact agreeAt_requireModule_live hm hscript (by rw [hs]; rfl)
      | done v => exact agreeAt_requireModule_live hm hscript (by rw [hs]; rfl)
    exact hbranch.congr (ModuleSystem.run_requireModule_script hscript) rfl
  · have hdata : likeness.AgreeAt c₀ likeness.Values (ModuleSystem.requireData (meant m₁ p))
        (inSystem (ModuleSystem.requireData (meant m₁ p))) m₁ m₂ :=
      (agreeAt_inSystem hm (ModuleSystem.keeps_requireData _ _)).mono fun _ _ _ _ h =>
        Value.paired_same_iff.2 h
    refine hdata.congr (ModuleSystem.run_requireModule_data hscript) ?_
    obtain ⟨hhost, rfl, -⟩ := meets_iff.1 hm
    rw [hhost] at hscript
    unfold requireModule
    refine (Run.run_bind_ok rfl rfl).trans ?_
    exact congrArg (fun x : Run Chronicle Value => x.run _) (if_neg hscript)

/-! ## The host -/

/-- The module system and its chronicle agree. -/
theorem hosts : likeness.Hosts ModuleSystem.host host where
  require := by
    intro run₁ run₂ hr c specifier dir
    refine (agree_inSystem (ModuleSystem.keeps_resolve specifier dir)).bind fun c₁ _ found _ h => ?_
    subst h
    cases found with
    | override value => exact .pure fun _ _ => Value.paired_same value
    | core name =>
      exact (agree_inSystem (ModuleSystem.keeps_requireCore name)).mono fun _ _ _ _ h =>
        Value.paired_same_iff.2 h
    | file p => exact agree_requireModule hr p
  find c specifier dir := agree_inSystem (ModuleSystem.keeps_find specifier dir)
  sourcePosition := by
    rintro c h₁ h₂ e₁ e₂ p ⟨-, -, hhost, rfl, -⟩ - pos
    rw [hhost]
    rfl

end

end Chronicle

end Hotload
