import Mathlib.Data.List.Induction
import MediaChain.Registry

/-!
# The best claim

`Registry.best?` gives the plugin with the best claim on a type (`Registry.best?_eq_some_iff`), and
none exactly if no claim counts (`Registry.best?_eq_none_iff`).
-/

namespace MediaChain

variable {ι ε : Type}

namespace Registry

variable {type : StreamType} {ps : List (Plugin ι ε)} {p q : Plugin ι ε} {priority : Int}

/-! ## Leading claims -/

/-- Of some plugins, in the order in which they are asked, this one claims a type with a priority
that counts, those before it claim it with lower priorities only, and those behind it with none
that is higher. -/
def Leads (type : StreamType) (ps : List (Plugin ι ε)) (p : Plugin ι ε) (priority : Int) : Prop :=
  p.claim type = some priority ∧ noPriority < priority ∧
    ∃ before after, ps = before ++ p :: after ∧
      (∀ q ∈ before, ∀ n, q.claim type = some n → n < priority) ∧
      ∀ q ∈ after, ∀ n, q.claim type = some n → n ≤ priority

/-- No plugin claims a type with a priority that counts. -/
def NoneLeads (type : StreamType) (ps : List (Plugin ι ε)) : Prop :=
  ∀ p ∈ ps, ∀ n, p.claim type = some n → n ≤ noPriority

theorem Leads.mem (h : Leads type ps p priority) : p ∈ ps := by
  obtain ⟨-, -, before, after, rfl, -, -⟩ := h
  exact List.mem_append_right _ List.mem_cons_self

theorem Leads.le (h : Leads type ps p priority) (hq : q ∈ ps) {n : Int}
    (hn : q.claim type = some n) : n ≤ priority := by
  obtain ⟨hp, -, before, after, rfl, hbefore, hafter⟩ := h
  rcases List.mem_append.mp hq with hq | hq
  · exact Int.le_of_lt (hbefore q hq n hn)
  · rcases List.mem_cons.mp hq with rfl | hq
    · rw [hp] at hn
      exact Int.le_of_eq (Option.some.inj hn).symm
    · exact hafter q hq n hn

/-- The plugin that leads goes on to do so if the next one has no higher priority. -/
theorem Leads.concat (h : Leads type ps p priority)
    (hq : ∀ n, q.claim type = some n → n ≤ priority) : Leads type (ps ++ [q]) p priority := by
  obtain ⟨hp, hcounts, before, after, rfl, hbefore, hafter⟩ := h
  refine ⟨hp, hcounts, before, after ++ [q], by simp, hbefore, fun q' hq' => ?_⟩
  rcases List.mem_append.mp hq' with hq' | hq'
  · exact hafter q' hq'
  · rw [List.mem_singleton.mp hq']
    exact hq

/-- The next plugin leads if all others have lower priorities. -/
theorem leads_concat (hq : q.claim type = some priority) (hcounts : noPriority < priority)
    (h : ∀ p ∈ ps, ∀ n, p.claim type = some n → n < priority) :
    Leads type (ps ++ [q]) q priority :=
  ⟨hq, hcounts, ps, [], rfl, h, fun _ hnil => absurd hnil List.not_mem_nil⟩

/-- Only one plugin leads. -/
theorem Leads.unique {n m : Int} (hp : Leads type ps p n) (hq : Leads type ps q m) : p = q := by
  have hmn : m ≤ n := hp.le hq.mem hq.1
  have hnm : n ≤ m := hq.le hp.mem hp.1
  obtain ⟨hpn, -, before, after, hsplit, hbefore, -⟩ := hp
  obtain ⟨hqm, -, before', after', hsplit', hbefore', -⟩ := hq
  rw [hsplit] at hsplit'
  -- the first of two different leaders would have a lower priority than the other
  rcases List.append_eq_append_iff.mp hsplit' with ⟨mid, hb, ha⟩ | ⟨mid, hb, ha⟩
  · rcases List.cons_eq_append_iff.mp ha with ⟨-, ha⟩ | ⟨mid', rfl, -⟩
    · exact (List.cons.inj ha).1.symm
    · have hlt := hbefore' p (by simp [hb]) n hpn
      omega
  · rcases List.cons_eq_append_iff.mp ha with ⟨-, ha⟩ | ⟨mid', rfl, -⟩
    · exact (List.cons.inj ha).1
    · have hlt := hbefore q (by simp [hb]) m hqm
      omega

/-! ## Asking all plugins -/

/-- What is known of the plugins asked so far. -/
def Leading (type : StreamType) (ps : List (Plugin ι ε)) : Option (Plugin ι ε × Int) → Prop
  | none => NoneLeads type ps
  | some (p, priority) => Leads type ps p priority

theorem leading_better {best : Option (Plugin ι ε × Int)} (h : Leading type ps best)
    (q : Plugin ι ε) : Leading type (ps ++ [q]) (better type best q) := by
  unfold better
  split
  next hq =>
    cases best with
    | none =>
      intro p hp n hn
      rcases List.mem_append.mp hp with hp | hp
      · exact h p hp n hn
      · rw [List.mem_singleton.mp hp, hq] at hn
        cases hn
    | some best => exact Leads.concat h fun n hn => by rw [hq] at hn; cases hn
  next priority hq =>
    cases best with
    | none =>
      split
      next hlt =>
        exact leads_concat hq hlt fun p hp n hn => Int.lt_of_le_of_lt (h p hp n hn) hlt
      next hle =>
        intro p hp n hn
        rcases List.mem_append.mp hp with hp | hp
        · exact h p hp n hn
        · rw [List.mem_singleton.mp hp, hq] at hn
          rw [← Option.some.inj hn]
          exact Int.not_lt.mp hle
    | some best =>
      have hbest : Leads type ps best.1 best.2 := h
      split
      next hlt =>
        exact leads_concat hq (Int.lt_trans hbest.2.1 hlt) fun p hp n hn =>
          Int.lt_of_le_of_lt (hbest.le hp hn) hlt
      next hle =>
        refine Leads.concat h fun n hn => ?_
        rw [hq] at hn
        rw [← Option.some.inj hn]
        exact Int.not_lt.mp hle

theorem leading_foldl (type : StreamType) (ps : List (Plugin ι ε)) :
    Leading type ps (ps.foldl (better type) none) := by
  induction ps using List.reverseRecOn with
  | nil => exact fun p hp => absurd hp List.not_mem_nil
  | append_singleton ps q ih =>
    rw [List.foldl_append]
    exact leading_better ih q

/-! ## The best plugin -/

/-- The plugin with the best claim on a type: of all that claim it with a priority that counts, the
one with the highest priority, and of those the one that was registered first. -/
def Best (r : Registry ι ε) (type : StreamType) (p : Plugin ι ε) : Prop :=
  ∃ priority, Leads type r.plugins p priority

/-- No claim on a type counts. -/
def Unclaimed (r : Registry ι ε) (type : StreamType) : Prop := NoneLeads type r.plugins

variable {r : Registry ι ε}

theorem best?_eq_none_iff : r.best? type = none ↔ r.Unclaimed type := by
  have h := leading_foldl type r.plugins
  unfold best?
  rw [Option.map_eq_none_iff]
  cases hbest : r.plugins.foldl (better type) none with
  | none =>
    rw [hbest] at h
    exact iff_of_true rfl h
  | some best =>
    rw [hbest] at h
    refine iff_of_false nofun fun hnone => ?_
    have hbest : Leads type r.plugins best.1 best.2 := h
    exact absurd hbest.2.1 (Int.not_lt.mpr (hnone _ hbest.mem _ hbest.1))

theorem best?_eq_some_iff : r.best? type = some p ↔ r.Best type p := by
  have h := leading_foldl type r.plugins
  unfold best?
  cases hbest : r.plugins.foldl (better type) none with
  | none =>
    rw [hbest] at h
    refine iff_of_false nofun fun ⟨priority, hp⟩ => ?_
    exact absurd hp.2.1 (Int.not_lt.mpr (h p hp.mem priority hp.1))
  | some best =>
    rw [hbest] at h
    have hbest : Leads type r.plugins best.1 best.2 := h
    rw [Option.map_some, Option.some.injEq]
    constructor
    · rintro rfl
      exact ⟨best.2, hbest⟩
    · rintro ⟨priority, hp⟩
      exact hbest.unique hp

end Registry

end MediaChain
