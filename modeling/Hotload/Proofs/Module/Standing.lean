import Mathlib
import Hotload.Proofs.Module.Chronicle

/-!
# How modules stand

What events that fit one another say of a module: a body that is under way stays so until it ends,
and what it leaves stays until it is dropped.

* `AllFit`: each event fits those before it.
* `Prompt`: requests for live exports are answered at once.
* `standing_running`, `standing_done`, `failed_of_running`: how a module stands after more events.
-/

namespace Hotload

/-! ## Events that fit -/

/-- The event can come after these: a body starts only if its module has none under way and left no
exports, it ends only if it is under way, and the answers to requests are exports that are live. -/
def Fits (events : List ModuleEvent) : ModuleEvent → Prop
  | .started p _ => standing p events = .idle
  | .finished p _ => ∃ exports, standing p events = .running exports
  | .failed p _ => ∃ exports, standing p events = .running exports
  | .answered _ p (.ok v) => (standing p events).exports? = some v
  | .answered _ _ (.error _) => True
  | .asked .. => True
  | .invalidated _ => True

/-- Each event fits those before it. -/
def AllFit (events : List ModuleEvent) : Prop :=
  ∀ before e after, events = before ++ e :: after → Fits before e

/-- A request for live exports is answered with them before anything else happens. -/
def Prompt (events : List ModuleEvent) : Prop :=
  ∀ before asker p after v, events = before ++ .asked asker p :: after →
    (standing p before).exports? = some v → ∃ rest, after = .answered asker p (.ok v) :: rest

/-- The last of some items, or one before it. -/
theorem snoc_eq_append_cons {α : Type} {l a b : List α} {x y : α} (h : l ++ [x] = a ++ y :: b) :
    (l = a ∧ x = y ∧ b = []) ∨ ∃ c, b = c ++ [x] ∧ l = a ++ y :: c := by
  rcases List.eq_nil_or_concat b with rfl | ⟨c, z, rfl⟩
  · obtain ⟨hl, hx⟩ := List.append_inj' h rfl
    exact .inl ⟨hl, by simpa using hx, rfl⟩
  · rw [List.concat_eq_append] at h ⊢
    rw [show a ++ y :: (c ++ [z]) = a ++ y :: c ++ [z] by simp] at h
    obtain ⟨hl, hx⟩ := List.append_inj' h rfl
    cases hx
    exact .inr ⟨c, rfl, hl⟩

section

variable {events : List ModuleEvent} {e : ModuleEvent} {p q : Path} {v : Value}

theorem allFit_nil : AllFit [] := fun before e after h => by simp at h

theorem AllFit.snoc (h : AllFit events) (he : Fits events e) : AllFit (events ++ [e]) := by
  intro before e' after hsplit
  rcases snoc_eq_append_cons hsplit with ⟨rfl, rfl, -⟩ | ⟨c, -, hc⟩
  · exact he
  · exact h before e' c hc

theorem prompt_nil : Prompt [] := fun before asker p after v h => by simp at h

theorem Prompt.snoc (h : Prompt events)
    (he : ∀ asker p, e = .asked asker p → standing p events = .idle) : Prompt (events ++ [e]) := by
  intro before asker p after v hsplit hv
  rcases snoc_eq_append_cons hsplit with ⟨rfl, rfl, -⟩ | ⟨c, rfl, hc⟩
  · rw [he asker p rfl] at hv
    cases hv
  · obtain ⟨rest, rfl⟩ := h before asker p c v hc hv
    exact ⟨rest ++ [e], rfl⟩

/-- A request for live exports, with its answer. -/
theorem Prompt.snoc_answered (h : Prompt events) (hv : (standing p events).exports? = some v)
    (asker : Path) : Prompt (events ++ [.asked asker p] ++ [.answered asker p (.ok v)]) := by
  intro before asker' q after w hsplit hw
  rcases snoc_eq_append_cons hsplit with ⟨-, heq, -⟩ | ⟨c, rfl, hc⟩
  · cases heq
  · rcases snoc_eq_append_cons hc with ⟨rfl, heq, rfl⟩ | ⟨d, rfl, hd⟩
    · cases heq
      rw [hv] at hw
      cases hw
      exact ⟨[], rfl⟩
    · obtain ⟨rest, rfl⟩ := h before asker' q d w hd hw
      exact ⟨_, rfl⟩

end

/-! ## How a module stands after more events -/

namespace ModuleEvent

/-- The event starts or ends the body of a path, or drops all exports. -/
def Concerns (p : Path) : ModuleEvent → Prop
  | .started q _ => q.same p
  | .finished q _ => q.same p
  | .failed q _ => q.same p
  | .invalidated _ => True
  | .asked .. => False
  | .answered .. => False

/-- How a module stands after an event that concerns it. -/
def leaves : ModuleEvent → Standing
  | .started _ exports => .running exports
  | .finished _ value => .done value
  | _ => .idle

/-- The event ends the body of a path or drops all exports. -/
def Ends (p : Path) : ModuleEvent → Prop
  | .finished q _ => q.same p
  | .failed q _ => q.same p
  | .invalidated _ => True
  | .started .. => False
  | .asked .. => False
  | .answered .. => False

/-- The event drops all exports. -/
def Invalidates : ModuleEvent → Prop
  | .invalidated _ => True
  | _ => False

end ModuleEvent

section

variable {p q : Path} {before after : List ModuleEvent} {e : ModuleEvent} {exports : ObjectRef}
  {v : Value}

/-- An event that does not concern a path leaves it as it stands. -/
theorem next_of_not_concerns (h : ¬ e.Concerns p) (s : Standing) : s.next p e = s := by
  cases e with
  | started q exports | finished q v | failed q e => exact if_neg h
  | invalidated q => exact absurd trivial h
  | asked | answered => rfl

theorem next_of_concerns (h : e.Concerns p) (s : Standing) : s.next p e = e.leaves := by
  cases e with
  | started q exports | finished q v | failed q e => exact if_pos h
  | invalidated q => rfl
  | asked | answered => exact h.elim

/-- The events up to one of them fit. -/
theorem AllFit.left (h : AllFit (before ++ after)) : AllFit before :=
  fun a e b hab => h a e (b ++ after) (by rw [hab]; simp)

theorem AllFit.head (h : AllFit (before ++ e :: after)) : Fits before e := h before e after rfl

/-- A body that is under way stays so until it ends. -/
theorem standing_running (hfit : AllFit (before ++ after))
    (hrunning : standing p before = .running exports) (h : ∀ e ∈ after, ¬ e.Ends p) :
    standing p (before ++ after) = .running exports := by
  induction after generalizing before with
  | nil => simpa using hrunning
  | cons e after ih =>
    have hsnoc : before ++ e :: after = before ++ [e] ++ after := by simp
    have hends : ¬ e.Ends p := h e List.mem_cons_self
    rw [hsnoc] at hfit ⊢
    refine ih hfit ?_ fun e' he' => h e' (by simp [he'])
    rw [standing_snoc, ← hrunning]
    refine next_of_not_concerns (fun hconcerns => ?_) _
    cases e with
    | started q other =>
      have hidle : standing q before = .idle := hfit.left.head
      rw [standing_congr hconcerns, hrunning] at hidle
      cases hidle
    | finished | failed | invalidated => exact hends hconcerns
    | asked | answered => exact hconcerns

/-- What a body has left stays until it is dropped. -/
theorem standing_done (hfit : AllFit (before ++ after)) (hdone : standing p before = .done v)
    (h : ∀ e ∈ after, ¬ e.Invalidates) : standing p (before ++ after) = .done v := by
  induction after generalizing before with
  | nil => simpa using hdone
  | cons e after ih =>
    have hsnoc : before ++ e :: after = before ++ [e] ++ after := by simp
    have hkept : ¬ e.Invalidates := h e List.mem_cons_self
    rw [hsnoc] at hfit ⊢
    refine ih hfit ?_ fun e' he' => h e' (by simp [he'])
    rw [standing_snoc, ← hdone]
    refine next_of_not_concerns (fun hconcerns => ?_) _
    have hfits : Fits before e := hfit.left.head
    cases e with
    | started q other =>
      rw [Fits, standing_congr hconcerns, hdone] at hfits
      cases hfits
    | finished q w | failed q w =>
      obtain ⟨other, hother⟩ := hfits
      rw [standing_congr hconcerns, hdone] at hother
      cases hother
    | invalidated => exact hkept hconcerns
    | asked | answered => exact hconcerns

/-- A body that was under way and is not any more, with nothing left, has failed. -/
theorem failed_of_running (hfit : AllFit (before ++ after))
    (hrunning : standing p before = .running exports)
    (hidle : standing p (before ++ after) = .idle) (h : ∀ e ∈ after, ¬ e.Invalidates) :
    ∃ middle q error rest, after = middle ++ .failed q error :: rest ∧ q.same p ∧
      ∀ e ∈ middle, ¬ e.Concerns p := by
  induction after generalizing before with
  | nil =>
    rw [List.append_nil, hrunning] at hidle
    cases hidle
  | cons e after ih =>
    have hsnoc : before ++ e :: after = before ++ [e] ++ after := by simp
    have hfits : Fits before e := hfit.head
    have hkept : ¬ e.Invalidates := h e List.mem_cons_self
    rw [hsnoc] at hfit hidle
    by_cases hconcerns : e.Concerns p
    · cases e with
      | started q other =>
        rw [Fits, standing_congr hconcerns, hrunning] at hfits
        cases hfits
      | failed q error => exact ⟨[], q, error, after, rfl, hconcerns, by simp⟩
      | finished q v =>
        have hdone : standing p (before ++ [.finished q v]) = .done v := by
          rw [standing_snoc, next_of_concerns hconcerns]
          rfl
        rw [standing_done hfit hdone fun e' he' => h e' (by simp [he'])] at hidle
        cases hidle
      | invalidated q => exact absurd trivial hkept
      | asked | answered => exact hconcerns.elim
    · have hnext : standing p (before ++ [e]) = .running exports := by
        rw [standing_snoc, next_of_not_concerns hconcerns, hrunning]
      obtain ⟨middle, q, error, rest, rfl, hq, hmiddle⟩ :=
        ih hfit hnext hidle fun e' he' => h e' (by simp [he'])
      refine ⟨e :: middle, q, error, rest, rfl, hq, fun e' he' => ?_⟩
      rcases List.mem_cons.1 he' with rfl | he'
      · exact hconcerns
      · exact hmiddle e' he'

/-- The last event that concerns a module tells how it stands. -/
theorem exists_last_concerning {s : Standing} (h : standing p before = s) (hs : s ≠ .idle) :
    ∃ a e b, before = a ++ e :: b ∧ e.Concerns p ∧ e.leaves = s ∧ ∀ e ∈ b, ¬ e.Concerns p := by
  induction before using List.reverseRecOn with
  | nil => exact absurd h.symm hs
  | append_singleton before e ih =>
    rw [standing_snoc] at h
    by_cases hconcerns : e.Concerns p
    · rw [next_of_concerns hconcerns] at h
      exact ⟨before, e, [], rfl, hconcerns, h, by simp⟩
    · rw [next_of_not_concerns hconcerns] at h
      obtain ⟨a, last, b, rfl, hlast, hleaves, hb⟩ := ih h
      refine ⟨a, last, b ++ [e], by simp, hlast, hleaves, fun e' he' => ?_⟩
      rcases List.mem_append.1 he' with he' | he'
      · exact hb e' he'
      · rwa [List.mem_singleton.1 he']

/-- A module has left exports because its body has run to its end, and nothing has concerned it
since. -/
theorem exists_finished (h : standing p before = .done v) :
    ∃ a q b, before = a ++ .finished q v :: b ∧ q.same p ∧ ∀ e ∈ b, ¬ e.Concerns p := by
  obtain ⟨a, e, b, rfl, hconcerns, hleaves, hb⟩ := exists_last_concerning h nofun
  cases e with
  | finished q w =>
    cases hleaves
    exact ⟨a, q, b, rfl, hconcerns, hb⟩
  | started | failed | invalidated | asked | answered => cases hleaves

/-- A body is under way because it was started, and nothing has concerned it since. -/
theorem exists_started (h : standing p before = .running exports) :
    ∃ a q b, before = a ++ .started q exports :: b ∧ q.same p ∧ ∀ e ∈ b, ¬ e.Concerns p := by
  obtain ⟨a, e, b, rfl, hconcerns, hleaves, hb⟩ := exists_last_concerning h nofun
  cases e with
  | started q other =>
    cases hleaves
    exact ⟨a, q, b, rfl, hconcerns, hb⟩
  | finished | failed | invalidated | asked | answered => cases hleaves

/-- Without the end of a body, nothing is left by it. -/
theorem standing_ne_done (h : ∀ v, standing p before ≠ .done v)
    (hafter : ∀ q v, .finished q v ∈ after → ¬ q.same p) (v : Value) :
    standing p (before ++ after) ≠ .done v := by
  induction after using List.reverseRecOn generalizing v with
  | nil => simpa using h v
  | append_singleton after e ih =>
    have ih := ih fun q v hq => hafter q v (by simp [hq])
    rw [← List.append_assoc, standing_snoc]
    by_cases hconcerns : e.Concerns p
    · rw [next_of_concerns hconcerns]
      cases e with
      | finished q w => exact absurd hconcerns (hafter q w (by simp))
      | started | failed | invalidated | asked | answered => nofun
    · rw [next_of_not_concerns hconcerns]
      exact ih v

end

end Hotload
