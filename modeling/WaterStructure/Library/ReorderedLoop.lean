import Mathlib.Data.List.Nodup
import Mathlib.Data.List.Perm.Basic
import WaterStructure.Library.NestedLoop

/-!
# Loops whose items may be reordered

What a loop that may fail ends with does not depend on the order of its items, if any two of them can
change places; which failure comes first may depend on it. Loops over the members of an object are such
loops when members of different names can change places. A map of the states that the loop body respects
can be applied before or behind the loop.
-/

namespace ReorderedLoop

variable {ε σ τ α β κ : Type}

theorem toOption_bind (first : Except ε σ) (next : σ → Except ε τ) :
    (first >>= next).toOption = first.toOption.bind fun s => (next s).toOption := by
  cases first <;> rfl

theorem toOption_map (first : Except ε σ) (f : σ → τ) : (first.map f).toOption = first.toOption.map f := by
  cases first <;> rfl

/-- Two steps lead to the same end in either order. -/
def Swaps (step : σ → α → Except ε σ) (first second : α) : Prop :=
  ∀ s, (step s first >>= fun s => step s second).toOption = (step s second >>= fun s => step s first).toOption

variable {step : σ → α → Except ε σ} {items : List α}

theorem Swaps.symm {first second : α} (h : Swaps step first second) :
    Swaps step second first := fun s => (h s).symm

/-- A loop whose items can all change places. -/
theorem toOption_foldlM_perm {items' : List α} (hperm : items.Perm items')
    (hswaps : items.Pairwise (Swaps step)) (s : σ) :
    (items.foldlM step s).toOption = (items'.foldlM step s).toOption := by
  induction hperm generalizing s with
  | nil => rfl
  | cons item _ ih =>
    rw [List.foldlM_cons, List.foldlM_cons, toOption_bind, toOption_bind]
    exact Option.bind_congr fun next _ => ih (List.pairwise_cons.mp hswaps).2 next
  | swap first second rest =>
    have hswap := (List.pairwise_cons.mp hswaps).1 first List.mem_cons_self s
    simp only [List.foldlM_cons, ← bind_assoc]
    rw [toOption_bind (step s second >>= _), hswap, ← toOption_bind]
  | trans hfirst _ ih ih' =>
    exact (ih hswaps s).trans (ih' ((hfirst.pairwise_iff Swaps.symm).mp hswaps) s)

/-- A loop over members of different names. -/
theorem toOption_foldlM_members {step : σ → κ × β → Except ε σ}
    {members members' : List (κ × β)} (hperm : members.Perm members')
    (hkeys : (members.map Prod.fst).Nodup)
    (hswaps : ∀ first second : κ × β, first.1 ≠ second.1 → Swaps step first second) (s : σ) :
    (members.foldlM step s).toOption = (members'.foldlM step s).toOption :=
  toOption_foldlM_perm hperm ((List.pairwise_map.mp hkeys).imp fun hne => hswaps _ _ hne) s

/-- Loops whose items have the same effect one by one. -/
theorem toOption_foldlM_congr {items' : List α}
    (h : List.Forall₂ (fun item item' => ∀ s, (step s item).toOption = (step s item').toOption) items items')
    (s : σ) : (items.foldlM step s).toOption = (items'.foldlM step s).toOption := by
  induction h generalizing s with
  | nil => rfl
  | cons hitem _ ih =>
    rw [List.foldlM_cons, List.foldlM_cons, toOption_bind, toOption_bind, hitem s]
    exact Option.bind_congr fun next _ => ih next

/-- A map of the states that the loop body respects. -/
theorem foldlM_map_state {step : σ → α → Except ε σ} {step' : τ → α → Except ε τ} {f : σ → τ}
    {items : List α} (h : ∀ s, ∀ item ∈ items, step' (f s) item = (step s item).map f) (s : σ) :
    items.foldlM step' (f s) = (items.foldlM step s).map f := by
  induction items generalizing s with
  | nil => rfl
  | cons item rest ih =>
    rw [List.foldlM_cons, List.foldlM_cons, h s item List.mem_cons_self]
    cases step s item with
    | error error => rfl
    | ok next => exact ih (fun s other hother => h s other (List.mem_cons_of_mem item hother)) next

/-- A step that can change places with every turn of a loop can change places with the loop. -/
theorem swap_foldlM {other : σ → Except ε σ} (h : ∀ s, ∀ item ∈ items,
      (step s item >>= other).toOption = (other s >>= fun s => step s item).toOption) (s : σ) :
    (items.foldlM step s >>= other).toOption = (other s >>= fun s => items.foldlM step s).toOption := by
  induction items generalizing s with
  | nil =>
    simp only [List.foldlM_nil]
    rw [bind_pure]
    rfl
  | cons item rest ih =>
    have hrest := ih fun s other hother => h s other (List.mem_cons_of_mem item hother)
    simp only [List.foldlM_cons, ← bind_assoc]
    calc ((step s item >>= fun s => rest.foldlM step s) >>= other).toOption
      _ = (step s item).toOption.bind fun s => (rest.foldlM step s >>= other).toOption := by
        rw [bind_assoc, toOption_bind]
      _ = (step s item >>= other).toOption.bind fun s => (rest.foldlM step s).toOption := by
        rw [toOption_bind, Option.bind_assoc]
        exact Option.bind_congr fun next _ => (hrest next).trans (toOption_bind _ _)
      _ = ((other s >>= fun s => step s item) >>= fun s => rest.foldlM step s).toOption := by
        rw [h s item List.mem_cons_self, toOption_bind _ fun s => rest.foldlM step s]

section Lookup

variable [BEq κ] [LawfulBEq κ] {members : List (κ × β)}

theorem lookup_perm {members' : List (κ × β)} (hperm : members.Perm members')
    (hkeys : (members.map Prod.fst).Nodup) (key : κ) : members.lookup key = members'.lookup key := by
  induction hperm with
  | nil => rfl
  | cons member _ ih =>
    rw [List.lookup_cons, List.lookup_cons, ih (List.nodup_cons.mp hkeys).2]
  | swap first second rest =>
    obtain ⟨hne, -⟩ := List.nodup_cons.mp hkeys
    have hne : second.1 ≠ first.1 := fun heq => hne (heq ▸ List.mem_cons_self)
    rw [List.lookup_cons, List.lookup_cons, List.lookup_cons, List.lookup_cons]
    by_cases hfirst : key = first.1
    · rw [beq_false_of_ne fun heq => hne (heq.symm.trans hfirst)]
    · rw [beq_false_of_ne hfirst]
  | trans hfirst _ ih ih' => exact (ih hkeys).trans (ih' ((hfirst.map Prod.fst).nodup_iff.mp hkeys))

theorem lookup_of_mem {members : List (κ × β)} (hkeys : (members.map Prod.fst).Nodup) {member : κ × β}
    (h : member ∈ members) : members.lookup member.1 = some member.2 := by
  induction members with
  | nil => cases h
  | cons first rest ih =>
    obtain ⟨hfirst, hrest⟩ := List.nodup_cons.mp hkeys
    rcases List.mem_cons.mp h with rfl | hmem
    · exact List.lookup_cons_self
    · have hne : member.1 ≠ first.1 := fun heq => hfirst (heq ▸ List.mem_map_of_mem hmem)
      rw [List.lookup_cons, beq_false_of_ne hne]
      exact ih hrest hmem

theorem lookup_append_single (members : List (κ × β)) (member : κ × β) (key : κ) :
    (members ++ [member]).lookup key =
      (members.lookup key).or (if member.1 == key then some member.2 else none) := by
  rw [List.lookup_append, List.lookup_cons, List.lookup_nil]
  by_cases heq : member.1 = key
  · rw [heq, beq_self_eq_true, if_pos rfl]
  · rw [beq_false_of_ne heq, beq_false_of_ne (Ne.symm heq), if_neg Bool.false_ne_true]

/-- A member of another name does not change what a name stands for. -/
theorem lookup_append_other {member : κ × β} {key : κ} (hne : member.1 ≠ key) :
    (members ++ [member]).lookup key = members.lookup key := by
  rw [lookup_append_single, beq_false_of_ne hne, if_neg Bool.false_ne_true, Option.or_none]

theorem lookup_append_fresh {member : κ × β} {key : κ} (hkey : member.1 = key)
    (hfresh : members.lookup member.1 = none) : (members ++ [member]).lookup key = some member.2 := by
  rw [lookup_append_single, hkey, beq_self_eq_true, if_pos rfl, ← hkey, hfresh]
  rfl

/-- The invariant rule of a loop over members of different names: what the invariant says of the members
so far does not know the name of the next one. -/
theorem foldlM_members_rule {step : σ → κ × β → Except ε σ} (Inv : List (κ × β) → σ → Prop)
    (h : ∀ done s, ∀ member ∈ members, ∀ t, done.lookup member.1 = none →
      Inv done s → step s member = .ok t → Inv (done ++ [member]) t) (hkeys : (members.map Prod.fst).Nodup)
    {s t : σ} (hinit : Inv [] s) (hrun : members.foldlM step s = .ok t) : Inv members t := by
  refine NestedLoop.foldlM_split_rule Inv (fun done member rest hdone s t hinv hstep => ?_) hinit hrun
  have hfresh : done.lookup member.1 = none := by
    rw [List.lookup_eq_none_iff]
    intro other hother
    rw [bne_iff_ne]
    rw [← hdone, List.map_append, List.nodup_append] at hkeys
    exact (hkeys.2.2 _ (List.mem_map_of_mem hother) _ List.mem_cons_self).symm
  have hmember : member ∈ members := hdone ▸ List.mem_append_right done List.mem_cons_self
  exact h done s member hmember t hfresh hinv hstep

end Lookup

end ReorderedLoop
