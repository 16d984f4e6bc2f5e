import Mathlib.Order.Bounds.Basic
import Unravel.Proofs.Scope.FreshNames

/-! Names handed out one after another. A search that counts up from the last number of a role ends
at the least number that makes a free name, whatever was asked for before. -/

namespace Unravel.Rename

/-- A request for a name: the role it is to tell, and whether it is to name a component. -/
structure Request where
  kind : BindingKind
  component : Bool
deriving DecidableEq, Repr

/-- The word for the role, with a capital letter for a component. -/
def Request.word (r : Request) : String :=
  if r.component then (roleWord r.kind false).capitalize else roleWord r.kind false

/-- A request and the number it was answered with. -/
structure Grant where
  request : Request
  number : Nat
deriving DecidableEq, Repr

def Grant.name (g : Grant) : String := g.request.word ++ Nat.repr g.number

/-- The last number used for a role, 0 if there is none. -/
def lastNumber (kind : BindingKind) (given : List Grant) : Nat :=
  given.foldl (fun last g => if g.request.kind = kind then g.number else last) 0

/-- The search without a bound on its steps: it counts up until a number makes a free name. -/
inductive Search (taken : List String) (word : String) : Nat → Nat → Prop
  | found {n : Nat} (h : word ++ Nat.repr (n + 1) ∉ taken) : Search taken word n (n + 1)
  | passed {n m : Nat} (h : word ++ Nat.repr (n + 1) ∈ taken) (hm : Search taken word (n + 1) m) :
    Search taken word n m

/-- The numbers beyond a given one that make a free name. -/
def freeNumbers (taken : List String) (word : String) (last : Nat) : Set Nat :=
  {k | last < k ∧ word ++ Nat.repr k ∉ taken}

/-- Requests answered in order: each search ends, and at the least number that is beyond the last
one of the role and makes a name neither in use nor given before. -/
inductive Granted (taken : List String) : List Grant → Prop
  | nil : Granted taken []
  | snoc {given : List Grant} (h : Granted taken given) {g : Grant}
    (hends : Search (taken ++ given.map Grant.name) g.request.word
      (lastNumber g.request.kind given) g.number)
    (hleast : IsLeast (freeNumbers (taken ++ given.map Grant.name) g.request.word
      (lastNumber g.request.kind given)) g.number) :
    Granted taken (given ++ [g])

/-- The names that requests made one after another are answered with. -/
def Supply.answers : Supply → List Request → List String
  | _, [] => []
  | s, r :: rest =>
    let (name, s) := s.next r.kind r.component
    name :: s.answers rest

theorem Request.word_eq (r : Request) : r.word = roleWord r.kind r.component := by
  obtain ⟨kind,component⟩ := r
  cases kind <;> cases component <;> rfl

@[simp]
theorem lastNumber_append (kind : BindingKind) (given : List Grant) (g : Grant) :
    lastNumber kind (given ++ [g]) = if g.request.kind = kind then g.number else lastNumber kind given := by
  rw [lastNumber, List.foldl_append]
  rfl

/-! ### One search -/

variable {taken : List String} {word : String}

/-- The search ends wherever there is a free number, and at the least one. -/
theorem search_of_isLeast {n m : Nat} (h : IsLeast (freeNumbers taken word n) m) :
    Search taken word n m := by
  obtain ⟨⟨hlt,hfree⟩,hlower⟩ := h
  -- on the number of names that are passed over
  obtain ⟨d,rfl⟩ : ∃ d, m = n + 1 + d := ⟨m - (n + 1),by omega⟩
  induction d generalizing n with
  | zero => exact .found hfree
  | succ d ih =>
    have htaken : word ++ Nat.repr (n + 1) ∈ taken := by
      by_contra hfree'
      have := hlower ⟨Nat.lt_succ_self n,hfree'⟩
      omega
    have heq : n + 1 + (d + 1) = n + 1 + 1 + d := by omega
    rw [heq] at hfree hlower ⊢
    refine .passed htaken (ih (fun k hk => ?_) (by omega) hfree)
    exact hlower ⟨Nat.lt_of_succ_lt hk.1,hk.2⟩

namespace Supply

private theorem le_firstFree (taken : List String) (word : String) (fuel n : Nat) :
    n ≤ firstFree taken word fuel n := by
  induction fuel generalizing n with
  | zero => exact le_rfl
  | succ fuel ih =>
    rw [firstFree]
    split
    · exact (Nat.le_succ n).trans (ih (n + 1))
    · exact le_rfl

/-- What a search passes over is taken. -/
private theorem firstFree_le {fuel n k : Nat} (hn : n ≤ k) (hk : word ++ Nat.repr k ∉ taken) :
    firstFree taken word fuel n ≤ k := by
  induction fuel generalizing n with
  | zero => exact hn
  | succ fuel ih =>
    rw [firstFree]
    split
    · rename_i htaken
      have hne : n ≠ k := by
        rintro rfl
        exact hk (by simpa using htaken)
      exact ih (by omega)
    · exact hn

theorem firstFree_isLeast (taken : List String) (word : String) (n : Nat) :
    IsLeast (freeNumbers taken word n) (firstFree taken word (taken.length + 1) (n + 1)) :=
  ⟨⟨le_firstFree taken word _ (n + 1),firstFree_not_mem taken word (n + 1)⟩,
    fun _ hk => firstFree_le hk.1 hk.2⟩

/-- The counter of one role is its own. -/
theorem next_counter (s : Supply) (kind kind' : BindingKind) (component : Bool) :
    (s.next kind component).2.counter kind' =
      if kind = kind' then
        firstFree s.taken (roleWord kind component) (s.taken.length + 1) (s.counter kind + 1)
      else s.counter kind' := by
  cases kind <;> cases kind' <;> rfl

end Supply

/-! ### Searches in a row -/

/-- A supply after names were given: it knows them, and the last number of each role. -/
structure Supply.Follows (taken : List String) (given : List Grant) (s : Supply) : Prop where
  mem_taken : ∀ name, name ∈ s.taken ↔ name ∈ taken ++ given.map Grant.name
  counter : ∀ kind, s.counter kind = lastNumber kind given

theorem Supply.follows_start (taken : List String) : Follows taken [] ⟨taken,0,0,0⟩ where
  mem_taken := by simp
  counter kind := by cases kind <;> rfl

/-- One more request: the name answered is the next to be granted. -/
private theorem Supply.Follows.next {given : List Grant} {s : Supply} (h : s.Follows taken given)
    (r : Request) :
    ∃ g : Grant, g.request = r ∧ (s.next r.kind r.component).1 = g.name ∧
      IsLeast (freeNumbers (taken ++ given.map Grant.name) r.word (lastNumber r.kind given)) g.number ∧
      (s.next r.kind r.component).2.Follows taken (given ++ [g]) := by
  generalize hn : firstFree s.taken r.word (s.taken.length + 1) (s.counter r.kind + 1) = n
  have hleast := firstFree_isLeast s.taken r.word (s.counter r.kind)
  have hfree : freeNumbers s.taken r.word (s.counter r.kind) =
      freeNumbers (taken ++ given.map Grant.name) r.word (lastNumber r.kind given) := by
    simp only [freeNumbers, h.mem_taken, h.counter]
  rw [hfree, hn] at hleast
  have hname : (s.next r.kind r.component).1 = r.word ++ Nat.repr n := by
    rw [← hn, r.word_eq]
    rfl
  refine ⟨⟨r,n⟩,rfl,hname,hleast,fun name => ?_,fun kind => ?_⟩
  · rw [next_taken, List.mem_cons, h.mem_taken, hname]
    simp only [Grant.name, List.map_append, List.map_cons, List.map_nil, List.mem_append,
      List.mem_singleton]
    tauto
  · rw [next_counter, lastNumber_append, ← r.word_eq, hn, h.counter kind]

private theorem Supply.Follows.answers {given : List Grant} {s : Supply} (h : s.Follows taken given)
    (hgiven : Granted taken given) (requests : List Request) :
    ∃ grants : List Grant, grants.map Grant.request = requests ∧
      s.answers requests = grants.map Grant.name ∧ Granted taken (given ++ grants) := by
  induction requests generalizing given s with
  | nil => exact ⟨[],rfl,rfl,by rwa [List.append_nil]⟩
  | cons r requests ih =>
    obtain ⟨g,rfl,hname,hleast,hnext⟩ := h.next r
    obtain ⟨grants,hrequests,hnames,hgranted⟩ :=
      ih hnext (hgiven.snoc (search_of_isLeast hleast) hleast)
    refine ⟨g :: grants,by rw [List.map_cons, hrequests],?_,?_⟩
    · rw [List.map_cons, ← hname, ← hnames]
      rfl
    · rwa [List.append_assoc, List.singleton_append] at hgranted

/-- Names granted differ from each other and from those in use. -/
theorem Granted.fresh {grants : List Grant} (h : Granted taken grants) :
    (grants.map Grant.name).Nodup ∧ taken.Disjoint (grants.map Grant.name) := by
  induction h with
  | nil => exact ⟨List.nodup_nil,List.disjoint_nil_right taken⟩
  | @snoc given h g _ hleast ih =>
    have hfree : g.name ∉ taken ++ given.map Grant.name := hleast.1.2
    simp only [List.mem_append, not_or] at hfree
    rw [List.map_append, List.map_singleton]
    constructor
    · exact ih.1.append (List.nodup_singleton _) (by simpa using hfree.2)
    · exact List.disjoint_append_right.mpr ⟨ih.2,by simpa using hfree.1⟩

/-- The names of a renaming are those that a supply gives for its bindings, one after another. -/
theorem map_snd_assign (s : Supply) (bs : List Binding) :
    (assign s bs).map Prod.snd =
      s.answers ((bs.filter generated).map fun b => ⟨b.kind,b.references.any (·.isTag)⟩) := by
  induction bs generalizing s with
  | nil => rfl
  | cons b bs ih =>
    rw [assign]
    split
    · rename_i h
      rw [List.filter_cons_of_pos (p := generated) h, List.map_cons, ih, List.map_cons]
      rfl
    · rename_i h
      rw [List.filter_cons_of_neg (p := generated) h, ih]

/-- Whatever names are in use and whatever is asked for in whatever order, every search ends, and
the names are those of the least free numbers of their roles, none of them in use or given twice. -/
theorem answers_least (taken : List String) (requests : List Request) :
    ∃ grants : List Grant, grants.map Grant.request = requests ∧
      (Supply.mk taken 0 0 0).answers requests = grants.map Grant.name ∧ Granted taken grants ∧
      (grants.map Grant.name).Nodup ∧ taken.Disjoint (grants.map Grant.name) := by
  obtain ⟨grants,hrequests,hnames,hgranted⟩ :=
    (Supply.follows_start taken).answers .nil requests
  exact ⟨grants,hrequests,hnames,hgranted,hgranted.fresh⟩

/-- A role counts on over both of its words, and past a name that is in use. -/
example : (Supply.mk ["var1", "Func3"] 0 0 0).answers
    [⟨.var,false⟩,⟨.function,true⟩,⟨.function,false⟩,⟨.function,true⟩,⟨.param,false⟩] =
      ["var2", "Func1", "func2", "Func4", "param1"] := by decide

end Unravel.Rename
