import Mathlib.Data.List.Nodup
import Mathlib.Data.List.Perm.Subperm
import Unravel.Scope.Rename

/-! Names given out for generated ones. Each one is free of the names in use and of the names given
out before it, and the bindings that get one are exactly those with a generated name. -/

namespace Unravel.Rename

namespace Supply

theorem numbered_injective {word : String} {j k : Nat}
    (h : word ++ Nat.repr j = word ++ Nat.repr k) : j = k := by
  have hd : Nat.toDigits 10 j = Nat.toDigits 10 k := by
    rw [← Nat.toList_repr, ← Nat.toList_repr, (String.append_right_inj word).mp h]
  rw [← Nat.ofDigitChars_ten_toDigits (n := j), hd, Nat.ofDigitChars_ten_toDigits]

/-- A search that ends at a taken name has passed over taken names only. -/
private theorem taken_of_firstFree {taken : List String} {word : String} {fuel n : Nat}
    (h : word ++ Nat.repr (firstFree taken word fuel n) ∈ taken) :
    ∀ k < fuel, word ++ Nat.repr (n + k) ∈ taken := by
  induction fuel generalizing n with
  | zero => simp
  | succ fuel ih =>
    rw [firstFree] at h
    split at h
    · rename_i hn
      intro k hk
      cases k with
      | zero => simpa using hn
      | succ k =>
        have := ih h k (by omega)
        rwa [show n + (k+1) = n + 1 + k by omega]
    · rename_i hn
      simp [h] at hn

/-- Among one more number than there are names, the search finds a free one. -/
theorem firstFree_not_mem (taken : List String) (word : String) (n : Nat) :
    word ++ Nat.repr (firstFree taken word (taken.length + 1) n) ∉ taken := by
  intro h
  have htaken := taken_of_firstFree h
  have hnodup : ((List.range (taken.length + 1)).map fun k => word ++ Nat.repr (n + k)).Nodup := by
    refine List.Nodup.map (fun j k he => ?_) List.nodup_range
    have := numbered_injective he
    omega
  have hsub : (List.range (taken.length + 1)).map (fun k => word ++ Nat.repr (n + k)) ⊆ taken := by
    intro name hname
    obtain ⟨k,hk,rfl⟩ := List.mem_map.mp hname
    exact htaken k (List.mem_range.mp hk)
  have := (hnodup.subperm hsub).length_le
  rw [List.length_map, List.length_range] at this
  omega

variable (s : Supply) (kind : BindingKind) (component : Bool)

theorem next_fresh : (s.next kind component).1 ∉ s.taken :=
  firstFree_not_mem s.taken (roleWord kind component) (s.counter kind + 1)

@[simp]
theorem next_taken :
    (s.next kind component).2.taken = (s.next kind component).1 :: s.taken := rfl

/-- A name given out is the word for its role and a number. -/
theorem next_eq : ∃ k, (s.next kind component).1 = roleWord kind component ++ Nat.repr k := ⟨_,rfl⟩

end Supply

/-- Whether a binding has a generated name. -/
def generated (b : Binding) : Bool := isHexName (Text.ofString b.name)

theorem map_fst_assign (s : Supply) (bs : List Binding) :
    (assign s bs).map Prod.fst = bs.filter generated := by
  induction bs generalizing s with
  | nil => rfl
  | cons b bs ih =>
    rw [assign]
    split
    · rename_i h
      rw [List.map_cons, ih, List.filter_cons_of_pos (p := generated) h]
    · rename_i h
      rw [ih, List.filter_cons_of_neg (p := generated) h]

/-- The names given out differ from each other and from all names in use. -/
theorem assign_fresh (s : Supply) (bs : List Binding) :
    ((assign s bs).map Prod.snd).Nodup ∧ ∀ e ∈ assign s bs, e.2 ∉ s.taken := by
  induction bs generalizing s with
  | nil => simp [assign]
  | cons b bs ih =>
    rw [assign]
    split
    · obtain ⟨hnodup,hfresh⟩ := ih (s.next b.kind (b.references.any (·.isTag))).2
      simp only [Supply.next_taken, List.mem_cons, not_or] at hfresh
      refine ⟨?_,List.forall_mem_cons.mpr ⟨s.next_fresh _ _,fun e he => (hfresh e he).2⟩⟩
      rw [List.map_cons, List.nodup_cons]
      refine ⟨fun h => ?_,hnodup⟩
      obtain ⟨e,he,hn⟩ := List.mem_map.mp h
      exact (hfresh e he).1 hn
    · exact ih s

/-- The new name of a binding tells its role. -/
theorem assign_role {s : Supply} {bs : List Binding} {e : Binding × String} (h : e ∈ assign s bs) :
    ∃ k, e.2 = roleWord e.1.kind (e.1.references.any (·.isTag)) ++ Nat.repr k := by
  induction bs generalizing s with
  | nil => simp [assign] at h
  | cons b bs ih =>
    rw [assign] at h
    split at h
    · rcases List.mem_cons.mp h with rfl | h
      · exact s.next_eq _ _
      · exact ih h
    · exact ih h

end Unravel.Rename
