import Mathlib.Data.List.Dedup
import Mathlib.Data.List.Perm.Subperm
import Mathlib.Logic.Relation
import Unravel.Strings.Resolver

/-! The names of a decoder: scanning the declarators until nothing is added finds exactly the names
that its name is passed on to, from one declarator to the next. -/

namespace Unravel.Strings

variable {links : List AliasLink} {name s : String}

/-- A name is passed on by plain declarators, one after another. -/
inductive PassedOn (links : List AliasLink) (name : String) : String → Prop
  | self : PassedOn links name name
  | link {a : AliasLink} (ha : a ∈ links) (h : PassedOn links name a.source) :
    PassedOn links name a.target

/-- Names to which no declarator adds one. -/
def Closed (links : List AliasLink) (known : List String) : Prop :=
  ∀ a ∈ links, a.source ∈ known → a.target ∈ known

/-- One scan keeps the names known, adds none twice, and adds only names passed on. -/
private theorem growAliases_spec (known : List String) (scanned : List AliasLink) :
    known.Sublist (growAliases known scanned) ∧
      (known.Nodup → (growAliases known scanned).Nodup) ∧
      ∀ known' : String → Prop, (∀ s ∈ known, known' s) →
        (∀ a ∈ scanned, known' a.source → known' a.target) →
          ∀ s ∈ growAliases known scanned, known' s := by
  induction scanned generalizing known with
  | nil => exact ⟨.refl known,id,fun _ h _ => h⟩
  | cons a scanned ih =>
    rw [growAliases]
    split
    · rename_i hcond
      obtain ⟨hsource,htarget⟩ : a.source ∈ known ∧ a.target ∉ known := by simpa using hcond
      obtain ⟨hsub,hnodup,hsound⟩ := ih (a.target :: known)
      refine ⟨(List.sublist_cons_self _ _).trans hsub,fun hn => hnodup (hn.cons htarget),
        fun known' hold hstep => ?_⟩
      obtain ⟨ha,hstep⟩ := List.forall_mem_cons.mp hstep
      exact hsound known' (List.forall_mem_cons.mpr ⟨ha (hold _ hsource),hold⟩) hstep
    · obtain ⟨hsub,hnodup,hsound⟩ := ih known
      exact ⟨hsub,hnodup,fun known' hold hstep => hsound known' hold (List.forall_mem_cons.mp hstep).2⟩

private theorem growAliases_eq {known : List String} {scanned : List AliasLink}
    (h : (growAliases known scanned).length = known.length) : growAliases known scanned = known :=
  ((growAliases_spec known scanned).1.eq_of_length h.symm).symm

/-- A scan that adds nothing finds nothing left to add. -/
private theorem closed_of_growAliases {known : List String} {scanned : List AliasLink}
    (h : growAliases known scanned = known) : Closed scanned known := by
  induction scanned with
  | nil => simp [Closed]
  | cons a scanned ih =>
    rw [growAliases] at h
    split at h
    · have hlonger := (growAliases_spec (a.target :: known) scanned).1.length_le
      rw [h, List.length_cons] at hlonger
      omega
    · rename_i hcond
      refine List.forall_mem_cons.mpr ⟨fun hsource => ?_,ih h⟩
      simpa [hsource] using hcond

/-- Scans with no bound on their number, the last of which adds nothing. -/
inductive Scans (links : List AliasLink) : Nat → List String → List String → Prop
  | last {known : List String} (h : growAliases known links = known) : Scans links 1 known known
  | more {rounds : Nat} {known found : List String} (h : growAliases known links ≠ known)
    (hm : Scans links rounds (growAliases known links) found) : Scans links (rounds + 1) known found

/-- Where the scans end nothing is left to add, and all that was added had to be. -/
private theorem Scans.spec {rounds : Nat} {known found : List String}
    (h : Scans links rounds known found) :
    Closed links found ∧ (∀ s ∈ known, s ∈ found) ∧ (known.Nodup → found.Nodup) ∧
      ∀ known' : String → Prop, (∀ s ∈ known, known' s) →
        (∀ a ∈ links, known' a.source → known' a.target) → ∀ s ∈ found, known' s := by
  induction h with
  | last h => exact ⟨closed_of_growAliases h,fun _ h => h,id,fun _ h _ => h⟩
  | @more _ known _ _ _ ih =>
    obtain ⟨hsub,hnodup,hsound⟩ := growAliases_spec known links
    obtain ⟨hclosed,hkept,hnodup',hsound'⟩ := ih
    exact ⟨hclosed,fun s hs => hkept s (hsub.subset hs),hnodup' ∘ hnodup,
      fun known' hold hstep => hsound' known' (hsound known' hold hstep) hstep⟩

/-- The scans end as long as the fuel exceeds the number of names that may still be added, and
each but the last adds one of these. -/
private theorem scans_closeAliases (all : List String) {known : List String} {fuel : Nat}
    (hn : known.Nodup) (hall : ∀ s ∈ known, s ∈ all) (htargets : ∀ a ∈ links, a.target ∈ all)
    (hfuel : all.length < known.length + fuel) :
    ∃ rounds, rounds + known.length ≤ all.length + 1 ∧
      Scans links rounds known (closeAliases links fuel known) := by
  have hle := (hn.subperm hall).length_le
  induction fuel generalizing known with
  | zero => omega
  | succ fuel ih =>
    rw [closeAliases]
    split
    · rename_i hsame
      exact ⟨1,by omega,.last (growAliases_eq hsame)⟩
    · rename_i hmore
      obtain ⟨hsub,hnodup,hsound⟩ := growAliases_spec known links
      have hlonger := Nat.lt_of_le_of_ne hsub.length_le (Ne.symm hmore)
      have hall' := hsound (· ∈ all) hall fun a ha _ => htargets a ha
      obtain ⟨rounds,hrounds,hscans⟩ :=
        ih (hnodup hn) hall' (by omega) ((hnodup hn).subperm hall').length_le
      exact ⟨rounds + 1,by omega,.more (fun h => hmore (by rw [h])) hscans⟩

/-- There are no more scans than names declared, and one. -/
private theorem scans_aliasesOf (links : List AliasLink) (name : String) :
    ∃ rounds ≤ (links.map AliasLink.target).dedup.length + 1,
      Scans links rounds [name] (aliasesOf links name) := by
  have hlength : (links.map AliasLink.target).dedup.length ≤ links.length := by
    simpa using (List.dedup_sublist (links.map AliasLink.target)).length_le
  have htargets : ∀ a ∈ links, a.target ∈ name :: (links.map AliasLink.target).dedup :=
    fun a ha => List.mem_cons_of_mem _ (List.mem_dedup.mpr (List.mem_map_of_mem ha))
  have hfuel : (name :: (links.map AliasLink.target).dedup).length <
      [name].length + (links.length + 1) := by
    simp
    omega
  obtain ⟨rounds,hrounds,hscans⟩ :=
    scans_closeAliases _ (List.nodup_singleton name) (by simp) htargets hfuel
  exact ⟨rounds,by simpa using hrounds,hscans⟩

theorem mem_aliasesOf_iff : s ∈ aliasesOf links name ↔ PassedOn links name s := by
  obtain ⟨rounds,-,hscans⟩ := scans_aliasesOf links name
  obtain ⟨hclosed,hkept,-,hsound⟩ := hscans.spec
  constructor
  · refine hsound (PassedOn links name) ?_ (fun a ha => .link ha) s
    simpa using PassedOn.self
  · intro h
    induction h with
    | self => exact hkept name (by simp)
    | link ha _ ih => exact hclosed _ ha ih

theorem self_mem_aliasesOf (links : List AliasLink) (name : String) : name ∈ aliasesOf links name :=
  mem_aliasesOf_iff.mpr .self

/-- A name is passed on to targets of declarators only. -/
theorem mem_aliasesOf (h : s ∈ aliasesOf links name) : s = name ∨ ∃ a ∈ links, a.target = s := by
  cases mem_aliasesOf_iff.mp h with
  | self => exact .inl rfl
  | link ha _ => exact .inr ⟨_,ha,rfl⟩

/-- A declarator makes its target a name for what its source names. -/
def Declares (links : List AliasLink) (source target : String) : Prop :=
  ∃ a ∈ links, a.source = source ∧ a.target = target

theorem passedOn_iff_reflTransGen :
    PassedOn links name s ↔ Relation.ReflTransGen (Declares links) name s := by
  constructor
  · intro h
    induction h with
    | self => exact .refl
    | link ha _ ih => exact ih.tail ⟨_,ha,rfl,rfl⟩
  · intro h
    induction h with
    | refl => exact .self
    | tail _ hstep ih =>
      obtain ⟨a,ha,rfl,rfl⟩ := hstep
      exact .link ha ih

/-- The scans of any list of declarators end, and what they find is the closure of the name under
the declarators, each name once. It is the same for each list that declares the same. -/
theorem aliasesOf_closure (links : List AliasLink) (name : String) :
    (∃ rounds ≤ (links.map AliasLink.target).dedup.length + 1,
      Scans links rounds [name] (aliasesOf links name)) ∧
    (aliasesOf links name).Nodup ∧
    (∀ s, s ∈ aliasesOf links name ↔ Relation.ReflTransGen (Declares links) name s) ∧
    ∀ links' : List AliasLink, (∀ s t, Declares links' s t ↔ Declares links s t) →
      (aliasesOf links' name).Perm (aliasesOf links name) := by
  have hmem (links : List AliasLink) (s : String) :
      s ∈ aliasesOf links name ↔ Relation.ReflTransGen (Declares links) name s :=
    mem_aliasesOf_iff.trans passedOn_iff_reflTransGen
  have hnodup (links : List AliasLink) : (aliasesOf links name).Nodup := by
    obtain ⟨rounds,-,hscans⟩ := scans_aliasesOf links name
    exact hscans.spec.2.2.1 (List.nodup_singleton name)
  refine ⟨scans_aliasesOf links name,hnodup links,hmem links,fun links' hsame => ?_⟩
  have hdeclares : Declares links' = Declares links :=
    funext fun s => funext fun t => propext (hsame s t)
  rw [List.perm_ext_iff_of_nodup (hnodup links') (hnodup links)]
  intro s
  rw [hmem, hmem, hdeclares]

/-- A name passed round in a ring, listed against its way and with one declarator twice. -/
def ringLinks : List AliasLink :=
  [⟨[2],"c","b"⟩, ⟨[1],"b","a"⟩, ⟨[0],"a","c"⟩, ⟨[3],"b","a"⟩]

theorem aliasesOf_closure_ring :
    (∀ s t, Declares ringLinks.reverse s t ↔ Declares ringLinks s t) ∧
      (aliasesOf ringLinks.reverse "a").Perm (aliasesOf ringLinks "a") ∧
      aliasesOf ringLinks "a" = ["c", "b", "a"] := by
  have hsame : ∀ s t, Declares ringLinks.reverse s t ↔ Declares ringLinks s t := by
    intro s t
    simp only [Declares, List.mem_reverse]
  exact ⟨hsame,(aliasesOf_closure ringLinks "a").2.2.2 ringLinks.reverse hsame,by decide⟩

end Unravel.Strings
