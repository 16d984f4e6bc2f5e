import Unravel.Proofs.Strings.Dangling
import Unravel.Proofs.Strings.Rotation

/-! Whether the machinery of a provider goes as a whole. The round of a provider takes out all of its
pieces that stand in rows, or none; what other rounds take out decides the rest. -/

namespace Unravel

/-- The kinds of which the pieces of a provider are: functions and statements that call one. -/
def Label.asStatement? : Label → Option Label
  | .functionDeclaration a b => some (.functionDeclaration a b)
  | .expressionStatement a b => some (.expressionStatement a b)
  | _ => none

namespace Strings

variable {σ ε : Type} {setup : Setup ε} {rotate : Bool} {tree : Node}

/-- A provider, the statement that rotates its table, and its decoders. -/
def pieces (tree : Node) (provider : NamedFunction) : List Path :=
  [provider.path] ++ (tree.rotation? provider.name).toList ++
    ((Index.ofTree tree).decodersOf provider).map (·.path)

/-- A node that is in the finished tree. -/
def State.Keeps (st : State σ) (p : Path) : Prop := ∃ l, (p, l) ∈ st.survivors

/-- The nodes that go in each of some rounds, with the provider of the round. -/
def State.removals (setup : Setup ε) (rotate : Bool) (index : Index) :
    List NamedFunction → State setup.engine.State → List (NamedFunction × Path)
  | [], _ => []
  | p :: rest, st =>
    match st.resolveProvider setup rotate index p with
    | .error _ => []
    | .ok st' =>
      ((st'.forest.detached.filter fun g => !st.forest.detached.contains g).map fun g => (p, g)) ++
        State.removals setup rotate index rest st'

/-- The nodes that go in each round of a resolution. -/
def removals (setup : Setup ε) (rotate : Bool) (tree : Node) : List (NamedFunction × Path) :=
  State.removals setup rotate (Index.ofTree tree)
    ((Index.ofTree tree).functions.filter (·.isProvider)) (started setup tree)

/-- No round of another provider takes out a piece of this one, a node that holds a piece, or a node
in the rotation. -/
def Undisturbed (setup : Setup ε) (rotate : Bool) (tree : Node) (provider : NamedFunction) : Prop :=
  ∀ e ∈ removals setup rotate tree, e.1.path ≠ provider.path →
    (∀ m ∈ pieces tree provider, ¬ e.2 <+: m) ∧ ∀ r ∈ tree.rotation? provider.name, ¬ r <+: e.2

/-! ### Pieces -/

theorem functions_pairwise (tree : Node) :
    (Index.ofTree tree).functions.Pairwise fun f g => f.path ≠ g.path := by
  refine List.pairwise_filterMap.mpr ((Node.located_pairwise tree []).imp ?_)
  rintro ⟨p,n⟩ ⟨q,m⟩ hne f hf g hg heq
  obtain ⟨hp,-⟩ := namedFunction?_some hf
  obtain ⟨hq,-⟩ := namedFunction?_some hg
  exact hne ((hp.symm.trans heq).trans hq)

theorem rotation?_label {name : String} {r : Path} (h : tree.rotation? name = some r) :
    ∃ i a b, r = [i] ∧ tree.labelAt? r = some (.expressionStatement a b) :=
  State.rotation_spec h

theorem piece_label {provider : NamedFunction} (hprov : provider ∈ (Index.ofTree tree).functions)
    {m : Path} (hm : m ∈ pieces tree provider) :
    ∃ l, tree.labelAt? m = some l ∧ l.asStatement?.isSome := by
  simp only [pieces, List.mem_append, List.mem_singleton, Option.mem_toList, List.mem_map] at hm
  rcases hm with (rfl | hm) | ⟨d,hd,rfl⟩
  · obtain ⟨a,b,hl⟩ := labelAt?_function hprov
    exact ⟨_,hl,rfl⟩
  · obtain ⟨-,a,b,-,hl⟩ := rotation?_label hm
    exact ⟨_,hl,rfl⟩
  · obtain ⟨a,b,hl⟩ := labelAt?_function (Index.isDecoder_of_mem hd).1
    exact ⟨_,hl,rfl⟩

/-- A replaced call holds no function and no statement. -/
theorem State.Sound.not_in_call {st : State σ} (h : st.Sound tree) (hs : tree.Slotted) {m : Path}
    {l : Label} (hl : tree.labelAt? m = some l) (hst : l.asStatement?.isSome) :
    ∀ v ∈ st.values, ¬ v.1 <+: m := by
  rintro v hv ⟨q,rfl⟩
  obtain ⟨c,hc,hcv,-,hargs⟩ := h.values v hv
  obtain ⟨n,hn,hcall,hname,harg⟩ := mem_calls.mp hc
  rw [hcv] at hn
  rw [harg] at hargs
  have hbelow : n.labelAt? q = some l := by
    rwa [Node.labelAt?, Node.at?_append, hn] at hl
  rcases hs.plainCall hn hcall hname hargs hbelow with ⟨-,rfl⟩ | hnames | ⟨a,b,rfl⟩ | ⟨k,rfl⟩
  · cases hst
  · obtain ⟨-,-,name,-,-,-,-,hlabel⟩ := hnames
    obtain rfl := Option.some.inj (hl.symm.trans hlabel)
    cases hst
  · cases hst
  · cases hst

/-- A piece is in the finished tree unless it stands in a node taken out. -/
theorem State.keeps_piece_iff {st : State σ} (h : st.Sound tree) (hs : tree.Slotted)
    {provider : NamedFunction} (hprov : provider ∈ (Index.ofTree tree).functions) {m : Path}
    (hm : m ∈ pieces tree provider) : st.Keeps m ↔ ¬ st.forest.Removed m := by
  obtain ⟨l,hl,hst⟩ := piece_label hprov hm
  rw [Keeps, survives_iff h hl]
  exact and_iff_left (h.not_in_call hs hl hst)

/-! ### Rounds -/

section Rounds
variable {st st' : State setup.engine.State}

theorem State.resolveProviders_append (index : Index) (before after : List NamedFunction)
    (st : State setup.engine.State) :
    State.resolveProviders setup rotate index (before ++ after) st =
      State.resolveProviders setup rotate index before st >>=
        State.resolveProviders setup rotate index after := by
  induction before generalizing st with
  | nil => rfl
  | cons p before ih =>
    rw [List.cons_append, resolveProviders, resolveProviders]
    cases st.resolveProvider setup rotate index p with
    | error e => rfl
    | ok st => exact ih st

theorem State.removals_cons {index : Index} {p : NamedFunction}
    (hst : st.resolveProvider setup rotate index p = .ok st') (rounds : List NamedFunction) :
    removals setup rotate index (p :: rounds) st =
      ((st'.forest.detached.filter fun g => !st.forest.detached.contains g).map fun g => (p, g)) ++
        removals setup rotate index rounds st' := by
  rw [removals, hst]

theorem State.removals_append {index : Index} {before : List NamedFunction}
    (hst : State.resolveProviders setup rotate index before st = .ok st') (after : List NamedFunction) :
    removals setup rotate index (before ++ after) st =
      removals setup rotate index before st ++ removals setup rotate index after st' := by
  induction before generalizing st with
  | nil =>
    obtain rfl := Except.ok.inj hst
    rfl
  | cons p before ih =>
    rw [resolveProviders] at hst
    obtain ⟨st₁,hone,hst⟩ := bind_ok hst
    rw [List.cons_append, removals_cons hone, removals_cons hone, ih hst, List.append_assoc]

/-- What is out after some rounds was out before or went in one of them. -/
theorem State.mem_removals {index : Index} {rounds : List NamedFunction}
    (hst : State.resolveProviders setup rotate index rounds st = .ok st') :
    ∀ g ∈ st'.forest.detached, g ∈ st.forest.detached ∨
      ∃ p ∈ rounds, (p, g) ∈ removals setup rotate index rounds st := by
  induction rounds generalizing st with
  | nil =>
    obtain rfl := Except.ok.inj hst
    exact fun g hg => .inl hg
  | cons p rounds ih =>
    intro g hg
    rw [resolveProviders] at hst
    obtain ⟨st₁,hone,hst⟩ := bind_ok hst
    rw [removals_cons hone]
    rcases ih hst g hg with hg | ⟨q,hq,hgone⟩
    · by_cases hold : g ∈ st.forest.detached
      · exact .inl hold
      · refine .inr ⟨p,List.mem_cons_self,List.mem_append_left _ (List.mem_map.mpr ⟨g,?_,rfl⟩)⟩
        exact List.mem_filter.mpr ⟨hg,by simpa using hold⟩
    · exact .inr ⟨q,List.mem_cons_of_mem _ hq,List.mem_append_right _ hgone⟩

/-- A round takes out nothing, or all the machinery that stands in rows. -/
theorem State.round_cases (hs : tree.Slotted) (h : st.Sound tree) {provider : NamedFunction}
    (hst : st.resolveProvider setup rotate (Index.ofTree tree) provider = .ok st') :
    (∀ g ∈ st.forest.detached, g ∈ st'.forest.detached) ∧ (st'.forest = st.forest ∨
      ∀ m ∈ st.machinery (Index.ofTree tree) provider, st.forest.inRow m = true →
        m ∈ st'.forest.detached) := by
  obtain ⟨st₁,hgains,hst⟩ := resolveProvider_cases h.linked h.at_call hst
  rw [← hgains.forest]
  rcases hst with rfl | ⟨-,rfl⟩
  · exact ⟨fun _ hg => hg,.inl rfl⟩
  · have hclears := clears_removeMachinery (by rw [hgains.forest, h.whole])
      (by rw [hgains.forest]; exact h.linked) hs (st.machinery (Index.ofTree tree) provider)
      ((Index.ofTree tree).decoding provider)
    exact ⟨hclears.shrinks.still,.inr hclears.rows⟩

/-- What is out stays out. -/
theorem State.Sound.still (hprog : tree.IsProgram) (hs : tree.Slotted) {rounds : List NamedFunction}
    (hrounds : ∀ p ∈ rounds, p ∈ (Index.ofTree tree).functions.filter (·.isProvider))
    (h : st.Sound tree)
    (hst : State.resolveProviders setup rotate (Index.ofTree tree) rounds st = .ok st') :
    ∀ g ∈ st.forest.detached, g ∈ st'.forest.detached := by
  refine (State.resolveProviders_keeps
    (fun st' => st'.Sound tree ∧ ∀ g ∈ st.forest.detached, g ∈ st'.forest.detached)
    (fun p hp st₁ st₂ hst₁ hround => ?_) ⟨h,fun _ hg => hg⟩ hst).2
  obtain ⟨hsound,hstill⟩ := hst₁
  obtain ⟨hmem,hp⟩ := List.mem_filter.mp (hrounds p hp)
  exact ⟨hsound.resolveProvider hprog hs hmem hp hround,
    fun g hg => (round_cases hs hsound hround).1 g (hstill g hg)⟩

/-- The round of a provider in a resolution, with what other rounds took out before and after it. -/
theorem exists_round (hprog : tree.IsProgram) (hs : tree.Slotted)
    (h : ended setup rotate tree = .ok st) {provider : NamedFunction}
    (hprov : provider ∈ (Index.ofTree tree).functions) (hp : provider.isProvider = true) :
    ∃ st₁ st₂ : State setup.engine.State, st₁.Sound tree ∧
      st₁.resolveProvider setup rotate (Index.ofTree tree) provider = .ok st₂ ∧
      (∀ g ∈ st₁.forest.detached, ∃ e ∈ removals setup rotate tree,
        e.1.path ≠ provider.path ∧ e.2 = g) ∧
      (∀ g ∈ st.forest.detached, g ∈ st₂.forest.detached ∨ ∃ e ∈ removals setup rotate tree,
        e.1.path ≠ provider.path ∧ e.2 = g) ∧
      ∀ g ∈ st₂.forest.detached, g ∈ st.forest.detached := by
  obtain ⟨before,after,hsplit⟩ := List.append_of_mem (List.mem_filter.mpr ⟨hprov,hp⟩)
  have hrounds : ∀ p ∈ before ++ provider :: after,
      p ∈ (Index.ofTree tree).functions.filter (·.isProvider) := fun p hp => hsplit ▸ hp
  have hdistinct : (before ++ provider :: after).Pairwise fun f g => f.path ≠ g.path :=
    hsplit ▸ (functions_pairwise tree).filter _
  obtain ⟨-,hfrom,hto⟩ := List.pairwise_append.mp hdistinct
  obtain ⟨hfrom,-⟩ := List.pairwise_cons.mp hfrom
  have hrun : State.resolveProviders setup rotate (Index.ofTree tree) (before ++ provider :: after)
      (started setup tree) = .ok st := hsplit ▸ h
  rw [State.resolveProviders_append] at hrun
  obtain ⟨st₁,hbefore,hrun⟩ := bind_ok hrun
  obtain ⟨st₂,hround,hafter⟩ := bind_ok hrun
  have hsound₁ : st₁.Sound tree :=
    sound_started.resolveProviders hprog hs (fun p hp => hrounds p (by simp [hp])) hbefore
  have hsound₂ := hsound₁.resolveProvider hprog hs hprov hp hround
  have hlog : removals setup rotate tree =
      State.removals setup rotate (Index.ofTree tree) before (started setup tree) ++
        State.removals setup rotate (Index.ofTree tree) (provider :: after) st₁ := by
    rw [removals, hsplit, State.removals_append hbefore]
  refine ⟨st₁,st₂,hsound₁,hround,fun g hg => ?_,fun g hg => ?_,?_⟩
  · rcases State.mem_removals hbefore g hg with hg | ⟨p,hp,hg⟩
    · cases hg
    · exact ⟨(p, g),hlog ▸ List.mem_append_left _ hg,hto p hp provider List.mem_cons_self,rfl⟩
  · refine (State.mem_removals hafter g hg).imp_right ?_
    rintro ⟨p,hp,hg⟩
    refine ⟨(p, g),hlog ▸ List.mem_append_right _ ?_,(hfrom p hp).symm,rfl⟩
    rw [State.removals_cons hround]
    exact List.mem_append_right _ hg
  · exact hsound₂.still hprog hs (fun p hp => hrounds p (by simp [hp])) hafter

end Rounds

/-- The pieces of a provider that stand in rows go together, if no other round takes out a piece, a
node around one or a node in the rotation: then either all of them are gone at the end, or all pieces
of the provider are left. A piece in no row stays by itself, since nodes are taken out one by one and
only from rows. -/
theorem removal_allOrNothing (hprog : tree.IsProgram) (hs : tree.Slotted)
    {st : State setup.engine.State} (h : ended setup rotate tree = .ok st) {provider : NamedFunction}
    (hprov : provider ∈ (Index.ofTree tree).functions) (hp : provider.isProvider = true)
    (hout : Undisturbed setup rotate tree provider) :
    resolve setup rotate tree = .ok st.finish ∧
      st.finish.tree.found Label.asStatement? =
        st.survivors.filterMap (fun e => Label.asStatement? e.2) ∧
      ((∀ m ∈ pieces tree provider, st.forest.inRow m = true → ¬st.Keeps m) ∨
        ∀ m ∈ pieces tree provider, st.Keeps m) := by
  refine ⟨by rw [resolve_eq, h]; rfl,st.found_finish _ fun _ => rfl,?_⟩
  obtain ⟨st₁,st₂,hsound₁,hround,hearly,hlate,hstill⟩ := exists_round hprog hs h hprov hp
  have hsound : st.Sound tree := sound_ended hprog hs h
  have hpieces : st₁.machinery (Index.ofTree tree) provider = pieces tree provider := by
    have hrotation : st₁.rotation? provider.name = tree.rotation? provider.name := by
      refine State.rotation?_eq hsound₁ fun r hr g hg => ?_
      obtain ⟨e,he,hother,rfl⟩ := hearly g hg
      exact (hout e he hother).2 r hr
    rw [State.machinery, pieces, hrotation]
  rcases (State.round_cases hs hsound₁ hround).2 with hsame | hgone
  · refine .inr fun m hm => (State.keeps_piece_iff hsound hs hprov hm).mpr ?_
    rintro ⟨g,hg,hgm⟩
    obtain ⟨e,he,hother,rfl⟩ : ∃ e ∈ removals setup rotate tree,
        e.1.path ≠ provider.path ∧ e.2 = g := by
      rcases hlate g hg with hg | hgone
      · exact hearly g (hsame ▸ hg)
      · exact hgone
    exact (hout e he hother).1 m hm hgm
  · refine .inl fun m hm hrow hkeeps => (State.keeps_piece_iff hsound hs hprov hm).mp hkeeps ?_
    rw [Forest.inRow_congr (hsound.whole.trans hsound₁.whole.symm)] at hrow
    exact ⟨m,hstill m (hgone m (hpieces ▸ hm) hrow),List.prefix_refl m⟩

/-! ### Programs -/

/-- The machinery of every provider with a decoder is gone as a whole or left as a whole. -/
def AllOrNothing (tree : Node) (st : State σ) : Prop :=
  ∀ f ∈ (Index.ofTree tree).functions, f.isProvider = true → (Index.ofTree tree).decodersOf f ≠ [] →
    (∀ m ∈ pieces tree f, ¬st.Keeps m) ∨ ∀ m ∈ pieces tree f, st.Keeps m

theorem State.exists_survivor_iff (st : State σ) (p : Path) :
    (∃ e ∈ st.survivors, e.1 = p) ↔ st.Keeps p := by
  simp [State.Keeps]

instance (st : State σ) (p : Path) : Decidable (st.Keeps p) :=
  decidable_of_iff (∃ e ∈ st.survivors, e.1 = p) (st.exists_survivor_iff p)

instance (setup : Setup ε) (rotate : Bool) (tree : Node) (provider : NamedFunction) :
    Decidable (Undisturbed setup rotate tree provider) :=
  inferInstanceAs (Decidable (∀ e ∈ removals setup rotate tree, e.1.path ≠ provider.path →
    (∀ m ∈ pieces tree provider, ¬ e.2 <+: m) ∧ ∀ r ∈ tree.rotation? provider.name, ¬ r <+: e.2))

/-- A function of the program with one table, by a name and at a place in the code. -/
private def tableFunction (i : Nat) (name : String) (start stop : Nat) : Node :=
  .mk (.functionDeclaration {} (some ⟨start, stop⟩)) (((exposed.at? [i]).getD default).subtrees.set 0
    (.id, .identifier name))

/-- The statement `x = dec(1)` of that program. -/
private def tableUse : Node := (exposed.at? [2]).getD default

private def nameStatement (name : String) : Node :=
  .mk (.expressionStatement none none) [(.expression, .identifier name)]

private def tableCode (name : String) : String :=
  "function " ++ name ++ "() \x7b return [\"a\", \"b\", \"c\", \"d\", \"e\", \"f\"]; \x7d\n"

/-- Two tables. The decoder of the first is in no row, `if (z) function dec(i) …`. A call of the
decoder of the second has to stay, `function read() { more; } x = dec(1); read(z);`. -/
def twoTables : Node :=
  .mk (.program "script")
    [(.body, tableFunction 0 "arr" 0 57),
      (.body, .mk .ifStatement [(.test, .identifier "z"), (.consequent, tableFunction 1 "dec" 65 101)]),
      (.body, tableFunction 0 "more" 102 160),
      (.body, .mk (.functionDeclaration {} (some ⟨161, 186⟩))
        [(.id, .identifier "read"), (.body, .block [nameStatement "more"])]),
      (.body, tableUse),
      (.body, .mk (.expressionStatement none none)
        [(.expression, .call (.identifier "read") [.identifier "z"])])]

def twoTablesSetup : Setup Unit :=
  { exposedSetup with
    code := Text.ofString (tableCode "arr" ++ "if (z) function dec(i) \x7b return arr()[i]; \x7d\n"
      ++ tableCode "more" ++ "function read() \x7b more; \x7d\nx = dec(1);\nread(z);") }

/-- One decoder that names two tables, `function dec(i) { more; return arr()[i]; }`. -/
def sharedDecoder : Node :=
  .mk (.program "script")
    [(.body, tableFunction 0 "arr" 0 57),
      (.body, tableFunction 0 "more" 58 116),
      (.body, .mk (.functionDeclaration {} (some ⟨117, 159⟩)) [(.id, .identifier "dec"),
        (.params, .identifier "i"), (.body, .block [nameStatement "more",
          (exposed.at? [1, 2, 0]).getD default])]),
      (.body, tableUse)]

def sharedDecoderSetup : Setup Unit :=
  { exposedSetup with
    code := Text.ofString (tableCode "arr" ++ tableCode "more"
      ++ "function dec(i) \x7b more; return arr()[i]; \x7d\nx = dec(1);") }

/-- A table and its decoder go; a table and its decoder stay for the sake of one call. -/
theorem removal_allOrNothing_tables :
    (∃ st, ended exposedSetup true exposed = .ok st ∧ ¬st.Keeps [0] ∧ ¬st.Keeps [1]) ∧
      ∃ st, ended twoTablesSetup true twoTables = .ok st ∧ st.Keeps [2] ∧ st.Keeps [3] := by
  refine ⟨⟨_,rfl,?_⟩,⟨_,rfl,?_⟩⟩
  · have harr : ⟨[0],"arr",[],true⟩ ∈ (Index.ofTree exposed).functions := List.mem_cons_self
    obtain ⟨-,-,hgone | hleft⟩ := removal_allOrNothing ⟨"script",rfl⟩ (by decide : exposed.Slotted)
      (rfl : ended exposedSetup true exposed = .ok _) harr rfl (by decide)
    · exact ⟨hgone [0] (by decide) (by decide),hgone [1] (by decide) (by decide)⟩
    · exact absurd (hleft [0] (by decide)) (by decide)
  · have hmore : ⟨[2],"more",[],true⟩ ∈ (Index.ofTree twoTables).functions :=
      .tail _ (.tail _ List.mem_cons_self)
    obtain ⟨-,-,hgone | hleft⟩ := removal_allOrNothing ⟨"script",rfl⟩ (by decide : twoTables.Slotted)
      (rfl : ended twoTablesSetup true twoTables = .ok _) hmore rfl (by decide)
    · exact absurd (by decide) (hgone [2] (by decide) (by decide))
    · exact ⟨hleft [2] (by decide),hleft [3] (by decide)⟩

/-- A table goes and its decoder, which stands in no row, stays; a decoder goes with the first of the
tables that it names, and the second stays. -/
theorem not_allOrNothing :
    (∃ st, ended twoTablesSetup true twoTables = .ok st ∧ ¬AllOrNothing twoTables st) ∧
      ∃ st, ended sharedDecoderSetup true sharedDecoder = .ok st ∧ ¬AllOrNothing sharedDecoder st := by
  refine ⟨⟨_,rfl,fun h => ?_⟩,⟨_,rfl,fun h => ?_⟩⟩
  · rcases h ⟨[0],"arr",[],true⟩ List.mem_cons_self rfl (by decide) with hgone | hleft
    · exact absurd (by decide) (hgone [1, 1] (by decide))
    · exact absurd (hleft [0] (by decide)) (by decide)
  · rcases h ⟨[1],"more",[],true⟩ (.tail _ List.mem_cons_self) rfl (by decide) with hgone | hleft
    · exact absurd (by decide) (hgone [1] (by decide))
    · exact absurd (hleft [2] (by decide)) (by decide)

end Strings
end Unravel
