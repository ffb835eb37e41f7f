import Mathlib.Data.Finset.Card
import Mathlib.Data.Finset.Dedup
import ProcLisp.Env
import ProcLisp.Proofs.Dict

/-!
# Environments laid over one another

An environment overlaid with another one binds what either of them binds, and the bindings of the
second win. It does not matter which of the two is walked through, and in what order.
-/

namespace ProcLisp.Env

/-! ### Binding one after the other -/

section Walks

variable {env : Env} {bindings : List (Bytes × Value)}

theorem mem_bindEach : ∀ e ∈ env.bindEach bindings, e ∈ env ∨ e ∈ bindings := by
  refine List.foldlRecOn bindings _ (motive := fun d => ∀ e ∈ d, e ∈ env ∨ e ∈ bindings)
    (fun e member => .inl member) fun d step first listed e member => ?_
  rcases Dict.mem_insert member with rfl | old
  · exact .inr listed
  · exact step e old

theorem mem_fillIn : ∀ e ∈ env.fillIn bindings, e ∈ env ∨ e ∈ bindings := by
  refine List.foldlRecOn bindings _ (motive := fun d => ∀ e ∈ d, e ∈ env ∨ e ∈ bindings)
    (fun e member => .inl member) fun d step first listed => ?_
  split
  · exact step
  · intro e member
    rcases Dict.mem_insert member with rfl | old
    · exact .inr listed
    · exact step e old

theorem ordered_bindEach (ordered : Dict.Ordered env) : Dict.Ordered (env.bindEach bindings) :=
  List.foldlRecOn bindings _ ordered fun _ kept e _ => Dict.ordered_insert kept e.1 e.2

theorem ordered_fillIn (ordered : Dict.Ordered env) : Dict.Ordered (env.fillIn bindings) := by
  refine List.foldlRecOn bindings _ ordered fun env kept e _ => ?_
  split
  · exact kept
  · exact Dict.ordered_insert kept e.1 e.2

/-- A binding that is written stays, because its name is not written again. -/
theorem find?_bindEach (distinct : (Dict.keys bindings).Nodup) (name : Bytes) :
    Dict.find? (env.bindEach bindings) name =
      (Dict.find? bindings name).or (Dict.find? env name) := by
  induction bindings generalizing env with
  | nil => rfl
  | cons first rest ih =>
    obtain ⟨fresh, others⟩ := List.nodup_cons.mp distinct
    show Dict.find? ((env.bind first.1 first.2).bindEach rest) name = _
    rw [ih others, bind, Dict.find?_insert, Dict.find?_cons]
    by_cases here : first.1 = name
    · have none : Dict.find? rest name = none := by
        rw [Dict.find?_eq_none_iff]
        rintro f member rfl
        exact fresh (List.mem_map.mpr ⟨f, member, here.symm⟩)
      rw [if_pos here, if_pos here, none]
      rfl
    · rw [if_neg here, if_neg here]

theorem find?_fillIn (name : Bytes) :
    Dict.find? (env.fillIn bindings) name =
      (Dict.find? env name).or (Dict.find? bindings name) := by
  induction bindings generalizing env with
  | nil => exact (Option.or_none).symm
  | cons first rest ih =>
    have step : Dict.find? (if Dict.contains env first.1 then env else env.bind first.1 first.2) name =
        (Dict.find? env name).or (if first.1 = name then some first.2 else none) := by
      by_cases here : first.1 = name
      · subst here
        rw [if_pos rfl, Dict.contains]
        cases found : Dict.find? env first.1 with
        | none => simp [bind, Dict.find?_insert]
        | some v => simp [found]
      · rw [if_neg here, Option.or_none]
        split
        · rfl
        · rw [bind, Dict.find?_insert, if_neg here]
    rw [fillIn, List.foldl_cons]
    refine ih.trans ?_
    rw [step, Option.or_assoc, Dict.find?_cons]
    split <;> rfl

end Walks

/-! ### One environment over another -/

section Overlays

variable {walk : Env → List (Bytes × Value)} {base overlay : Option Env}

theorem count_eq (env : Option Env) : count env = (env.getD []).length := by
  cases env <;> rfl

theorem eq_nil_of_count {env : Option Env} (none : count env = 0) : env.getD [] = [] := by
  rw [count_eq] at none
  exact List.length_eq_zero_iff.mp none

theorem mem_overlaid (walks : ∀ env, (walk env).Perm env) {e : Bytes × Value}
    (member : e ∈ overlaid walk base overlay) : e ∈ base.getD [] ∨ e ∈ overlay.getD [] := by
  unfold overlaid at member
  split at member
  · exact .inl member
  split at member
  · exact .inr member
  split at member
  · exact (mem_bindEach e member).imp_right (walks _).mem_iff.mp
  · exact ((mem_fillIn e member).imp_right (walks _).mem_iff.mp).symm

theorem ordered_overlaid (below : Dict.Ordered (base.getD []))
    (above : Dict.Ordered (overlay.getD [])) : Dict.Ordered (overlaid walk base overlay) := by
  unfold overlaid
  split
  · exact below
  split
  · exact above
  split
  · exact ordered_bindEach below
  · exact ordered_fillIn above

/-- A walk through the overlay writes no name twice. One through the base may, as the first binding
that is filled in stays. -/
theorem find?_overlaid_of {name : Bytes}
    (below : Dict.find? (walk (base.getD [])) name = Dict.find? (base.getD []) name)
    (distinct : (Dict.keys (walk (overlay.getD []))).Nodup)
    (above : Dict.find? (walk (overlay.getD [])) name = Dict.find? (overlay.getD []) name) :
    Dict.find? (overlaid walk base overlay) name =
      (Dict.find? (overlay.getD []) name).or (Dict.find? (base.getD []) name) := by
  unfold overlaid
  split
  · rename_i none
    rw [eq_nil_of_count none]
    rfl
  split
  · rename_i none
    rw [eq_nil_of_count none, Dict.find?_nil, Option.or_none]
  split
  · rw [find?_bindEach distinct, above]
  · rw [find?_fillIn, below]

theorem find?_overlaid (walks : ∀ env, (walk env).Perm env) (below : Dict.Ordered (base.getD []))
    (above : Dict.Ordered (overlay.getD [])) (name : Bytes) :
    Dict.find? (overlaid walk base overlay) name =
      (Dict.find? (overlay.getD []) name).or (Dict.find? (base.getD []) name) := by
  have distinct := Dict.distinct_of_ordered above
  exact find?_overlaid_of (Dict.find?_of_perm (Dict.distinct_of_ordered below) (walks _) name)
    (((walks _).map Prod.fst).nodup_iff.mpr distinct) (Dict.find?_of_perm distinct (walks _) name)

/-- An environment in order is known by what it binds. -/
theorem eq_overlaid (walks : ∀ env, (walk env).Perm env) (below : Dict.Ordered (base.getD []))
    (above : Dict.Ordered (overlay.getD [])) {env : Env} (ordered : Dict.Ordered env)
    (same : ∀ name, Dict.find? env name =
      (Dict.find? (overlay.getD []) name).or (Dict.find? (base.getD []) name)) :
    overlaid walk base overlay = env :=
  Dict.eq_of_find?_eq (ordered_overlaid below above) ordered fun name =>
    (find?_overlaid walks below above name).trans (same name).symm

theorem mem_keys_overlaid (walks : ∀ env, (walk env).Perm env)
    (below : Dict.Ordered (base.getD [])) (above : Dict.Ordered (overlay.getD [])) {name : Bytes} :
    name ∈ Dict.keys (overlaid walk base overlay) ↔
      name ∈ Dict.keys (base.getD []) ∨ name ∈ Dict.keys (overlay.getD []) := by
  rw [← Dict.isSome_find?_iff, ← Dict.isSome_find?_iff, ← Dict.isSome_find?_iff,
    find?_overlaid walks below above, Option.isSome_or, Bool.or_eq_true, or_comm]

theorem length_overlaid (walks : ∀ env, (walk env).Perm env) (below : Dict.Ordered (base.getD []))
    (above : Dict.Ordered (overlay.getD [])) :
    (overlaid walk base overlay).length =
      (Dict.keys (base.getD []) ++ Dict.keys (overlay.getD [])).toFinset.card := by
  have distinct : (Dict.keys (overlaid walk base overlay)).Nodup :=
    Dict.distinct_of_ordered (ordered_overlaid below above)
  have same : (Dict.keys (overlaid walk base overlay)).toFinset =
      (Dict.keys (base.getD []) ++ Dict.keys (overlay.getD [])).toFinset := by
    ext name
    rw [List.mem_toFinset, mem_keys_overlaid walks below above, List.mem_toFinset, List.mem_append]
  rw [← same, List.toFinset_card_of_nodup distinct, Dict.keys, List.length_map]

theorem overlaid_of_blank (walks : ∀ env, (walk env).Perm env) {env blank : Option Env}
    (ordered : Dict.Ordered (env.getD [])) (empty : blank.getD [] = []) :
    overlaid walk blank env = env.getD [] ∧ overlaid walk env blank = env.getD [] := by
  have unbound : Dict.Ordered (blank.getD []) := by
    rw [empty]
    exact .nil
  constructor
  · refine eq_overlaid walks unbound ordered ordered fun name => ?_
    rw [empty, Dict.find?_nil, Option.or_none]
  · refine eq_overlaid walks ordered unbound ordered fun name => ?_
    rw [empty, Dict.find?_nil, Option.none_or]

theorem overlaid_assoc (walks : ∀ env, (walk env).Perm env) {a b c : Option Env}
    (first : Dict.Ordered (a.getD [])) (second : Dict.Ordered (b.getD []))
    (third : Dict.Ordered (c.getD [])) :
    overlaid walk (some (overlaid walk a b)) c = overlaid walk a (some (overlaid walk b c)) := by
  have lower : Dict.Ordered ((some (overlaid walk a b)).getD []) := ordered_overlaid first second
  have upper : Dict.Ordered ((some (overlaid walk b c)).getD []) := ordered_overlaid second third
  refine eq_overlaid walks lower third (ordered_overlaid first upper) fun name => ?_
  rw [find?_overlaid walks first upper, Option.getD_some, Option.getD_some,
    find?_overlaid walks second third, find?_overlaid walks first second, Option.or_assoc]

/-- An overlay is the union of two environments that is biased to the second one, whether or not they
are missing or empty, whichever is larger, and however the smaller one is walked through. -/
theorem overlaid_is_biased_union (walks : ∀ env, (walk env).Perm env) {a b c : Option Env}
    (ordered : ∀ env ∈ [a, b, c], Dict.Ordered (env.getD [])) :
    (∀ name, Dict.find? (overlaid walk a b) name =
      (Dict.find? (b.getD []) name).or (Dict.find? (a.getD []) name)) ∧
    (overlaid walk a b).length = (Dict.keys (a.getD []) ++ Dict.keys (b.getD [])).toFinset.card ∧
    (∀ other : Env → List (Bytes × Value), (∀ env, (other env).Perm env) →
      overlaid other a b = overlaid walk a b) ∧
    (∀ base overlay : Env, a = some base → b = some overlay →
      base.merge overlay = overlaid walk a b) ∧
    overlaid walk (some (overlaid walk a b)) c = overlaid walk a (some (overlaid walk b c)) ∧
    overlaid walk a a = a.getD [] ∧
    (∀ blank : Option Env, blank.getD [] = [] →
      overlaid walk blank a = a.getD [] ∧ overlaid walk a blank = a.getD []) := by
  have first : Dict.Ordered (a.getD []) := ordered a (by simp)
  have second : Dict.Ordered (b.getD []) := ordered b (by simp)
  have third : Dict.Ordered (c.getD []) := ordered c (by simp)
  have in_any_order : ∀ other : Env → List (Bytes × Value), (∀ env, (other env).Perm env) →
      overlaid other a b = overlaid walk a b := fun other others =>
    eq_overlaid others first second (ordered_overlaid first second)
      (find?_overlaid walks first second)
  refine ⟨find?_overlaid walks first second, length_overlaid walks first second, in_any_order, ?_,
    overlaid_assoc walks first second third, ?_, ?_⟩
  · rintro base overlay rfl rfl
    exact in_any_order id fun env => .refl env
  · exact eq_overlaid walks first first first fun name => (Option.or_self).symm
  · exact fun blank empty => overlaid_of_blank walks first empty

/-- The overlay is the smaller one, shares a name, and is walked through from its last name on. -/
theorem overlaid_is_biased_union_reversed :
    let below : Option Env := some [(ascii "a", .int 1), (ascii "b", .int 2), (ascii "c", .int 3)]
    let above : Option Env := some [(ascii "b", .bool true), (ascii "d", .int 4)]
    Dict.find? (overlaid List.reverse below above) (ascii "b") = some (.bool true) ∧
      Dict.find? (overlaid List.reverse below above) (ascii "c") = some (.int 3) ∧
      (overlaid List.reverse below above).length = 4 ∧
      overlaid List.reverse (some (overlaid List.reverse below above)) none =
        overlaid List.reverse below (some (overlaid List.reverse above none)) := by
  intro below above
  have walks (env : Env) : env.reverse.Perm env := env.reverse_perm
  have ordered : ∀ env ∈ [below, above, none], Dict.Ordered (env.getD []) := by decide
  obtain ⟨bound, size, -, -, assoc, -⟩ := overlaid_is_biased_union walks ordered
  exact ⟨bound _, bound _, size, assoc⟩

end Overlays

/-! ### Without a missing environment -/

variable {base overlay : Env}

theorem mem_merge {e : Bytes × Value} (member : e ∈ base.merge overlay) : e ∈ base ∨ e ∈ overlay :=
  mem_overlaid (fun _ => .refl _) member

theorem ordered_merge (below : Dict.Ordered base) (above : Dict.Ordered overlay) :
    Dict.Ordered (base.merge overlay) := ordered_overlaid below above

theorem find?_merge (above : Dict.Ordered overlay) (name : Bytes) :
    Dict.find? (base.merge overlay) name =
      (Dict.find? overlay name).or (Dict.find? base name) :=
  @find?_overlaid_of id (some base) (some overlay) name rfl (Dict.distinct_of_ordered above) rfl

end ProcLisp.Env
