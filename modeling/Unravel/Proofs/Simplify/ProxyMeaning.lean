import Unravel.Proofs.Simplify.ProxyScope

/-! What a call through a proxy object means, and what the expression means that is put in its
place. Scripts are run by any machine at all: the order of the effects is told by a monad. -/

namespace Unravel.Simplify
open Node

/-- What a script runs on. Everything that a wrapped operation does not tell about itself is left
to the machine: operators, properties, calls, and all other expressions. -/
structure Machine (M : Type → Type) [Monad M] where
  Value : Type
  Env : Type
  undefined : Value
  read : Env → String → M Value
  /-- The environment in which a name stands for a value. -/
  bind : Env → String → Value → Env
  read_bind : ∀ env x v y, read (bind env x v) y = if y = x then pure v else read env y
  operate : String → Value → Value → M Value
  /-- Whether a left operand alone decides a logical operation. -/
  decides : String → Value → Bool
  key : String → Value
  get : Value → Value → M Value
  /-- A call of a value with a receiver and arguments. -/
  invoke : Value → Value → List Value → M Value
  /-- The array of the arguments that a last parameter collects. -/
  array : List Value → Value
  /-- The values that a spread one stands for. -/
  spread : Value → M (List Value)
  spread_array : ∀ vs, spread (array vs) = pure vs
  /-- The environment with the names of a pattern or of a parameter with a default. -/
  destructure : Env → Node → Value → M Env
  /-- A body that does more than to return an expression. -/
  execute : Env → Node → M Value
  /-- What a call of a generator or of an asynchronous function gives for its body. -/
  defer : FunctionFlags → M Value → M Value
  /-- Any other expression, by its subtrees and by what these mean. -/
  other : Label → List (Field × Node × (Env → M Value)) → Env → M Value

namespace Machine
variable {M : Type → Type} [Monad M] (m : Machine M)

/-- What an expression comes to in an environment: its value and the receiver that a call of it
has. -/
abbrev Meaning := m.Env → M (m.Value × m.Value)

/-- A value that is not read off an object. -/
def bare (v : M m.Value) : M (m.Value × m.Value) := do return (← v, m.undefined)

/-- The value in a slot. -/
def part (cs : List (Field × Node × m.Meaning)) (env : m.Env) (f : Field) : M m.Value :=
  match cs.find? fun c => c.1 = f with
  | some c => Prod.fst <$> c.2.2 env
  | none => pure m.undefined

/-- The values of arguments from left to right. A spread one gives any number of them. -/
def parts (env : m.Env) : List (Node × m.Meaning) → M (List m.Value)
  | [] => pure []
  | (n, e) :: rest => do
    let (v, _) ← e env
    let vs ← if isSpread n then m.spread v else pure [v]
    return vs ++ (← parts env rest)

/-- The key of a member. -/
def memberKey (computed : Bool) (cs : List (Field × Node × m.Meaning)) (env : m.Env) : M m.Value :=
  if computed then m.part cs env .property
  else
    let name := (cs.find? fun c => c.1 = .property).bind fun c => c.2.1.identifierName?
    pure (m.key (name.getD ""))

/-- What a node means, told by what its subtrees mean. -/
def step (l : Label) (cs : List (Field × Node × m.Meaning)) : m.Meaning := fun env =>
  match l with
  | .identifier x => m.bare (m.read env x)
  | .binaryExpression o => m.bare do m.operate o (← m.part cs env .left) (← m.part cs env .right)
  | .logicalExpression o => m.bare do
    let v ← m.part cs env .left
    if m.decides o v then return v else m.part cs env .right
  | .memberExpression computed => do
    let object ← m.part cs env .object
    return (← m.get object (← m.memberKey computed cs env), object)
  | .callExpression => m.bare do
    let (f, receiver) ← match cs.find? fun c => c.1 = .callee with
      | some c => c.2.2 env
      | none => pure (m.undefined, m.undefined)
    m.invoke f receiver (← m.parts env ((cs.filter fun c => c.1 = .arguments).map Prod.snd))
  | .spreadElement => m.bare (m.part cs env .argument)
  | l => m.bare (m.other l (cs.map fun c => (c.1, c.2.1, fun env => Prod.fst <$> c.2.2 env)) env)

def eval (n : Node) : m.Meaning := n.fold m.step

/-- The value of an expression. -/
def value (env : m.Env) (n : Node) : M m.Value := Prod.fst <$> m.eval n env

/-- The values of the arguments of a call. -/
def arguments (env : m.Env) (args : List Node) : M (List m.Value) :=
  m.parts env (args.map fun n => (n, m.eval n))

/-- Binds parameters to arguments in order. A missing argument is undefined, and of two parameters
of one name the later one counts. -/
def bindParams (env : m.Env) : List Node → List m.Value → M m.Env
  | [], _ => pure env
  | p :: ps, vs =>
    match p.label with
    | .identifier x => bindParams (m.bind env x (vs.headD m.undefined)) ps vs.tail
    | .restElement =>
      match (p.child? .argument).bind identifierName? with
      | some x => bindParams (m.bind env x (m.array vs)) ps []
      | none => do bindParams (← m.destructure env p (m.array vs)) ps []
    | _ => do bindParams (← m.destructure env p (vs.headD m.undefined)) ps vs.tail

def flags? : Label → Option FunctionFlags
  | .functionExpression flags | .arrowFunctionExpression flags => some flags
  | _ => none

/-- A call of a function, in the environment it was made in, with values for arguments. -/
def apply (closure : m.Env) (f : Node) (vs : List m.Value) : M m.Value :=
  let body := do
    let inner ← m.bindParams closure (f.row .params) vs
    match returned? f with
    | some e => m.value inner e
    | none => m.execute inner f
  match flags? f.label with
  | some flags => if flags.generator || flags.isAsync then m.defer flags body else body
  | none => body

/-- The arguments are evaluated, and the function is called with them. -/
def called (closure env : m.Env) (f : Node) (args : List Node) : M m.Value := do
  m.apply closure f (← m.arguments env args)

/-! ### What expressions mean -/

theorem eval_eq (env : m.Env) (n : Node) :
    m.eval n env = m.step n.label (n.subtrees.map fun c => (c.1, c.2, m.eval c.2)) env := by
  obtain ⟨k,l,cs⟩ := n
  rw [eval, fold_marked]
  rfl

theorem find?_subtrees {α : Type} (g : Node → α) (n : Node) (f : Field) :
    (n.subtrees.map fun c => (c.1, c.2, g c.2)).find? (fun c => c.1 = f) =
      (n.child? f).map fun c => (f, c, g c) := by
  rw [List.find?_map, child?]
  simp only [Function.comp_def]
  cases h : n.subtrees.find? fun c => c.1 = f with
  | none => rfl
  | some c =>
    obtain rfl : c.1 = f := by simpa using List.find?_some h
    rfl

section
variable {m} {env : m.Env} {n : Node} {o : String}

theorem part_eq {f : Field} {c : Node} (h : n.child? f = some c) :
    m.part (n.subtrees.map fun c => (c.1, c.2, m.eval c.2)) env f = m.value env c := by
  rw [part, find?_subtrees, h]
  rfl

theorem arguments_nil : m.arguments env [] = pure [] := rfl

variable [LawfulMonad M]

theorem fst_bare (v : M m.Value) : Prod.fst <$> m.bare v = v := by simp [bare]

theorem value_identifier {x : String} (h : n.label = .identifier x) :
    m.value env n = m.read env x := by
  rw [value, eval_eq, h]
  exact fst_bare _

theorem value_spread {c : Node} (h : n.label = .spreadElement) (hc : n.child? .argument = some c) :
    m.value env n = m.value env c := by
  rw [value, eval_eq, h]
  simp only [step, part_eq hc, fst_bare]

theorem value_binary {l r : Node} (h : n.label = .binaryExpression o) (hl : n.child? .left = some l)
    (hr : n.child? .right = some r) :
    m.value env n = (do m.operate o (← m.value env l) (← m.value env r)) := by
  rw [value, eval_eq, h]
  simp only [step, part_eq hl, part_eq hr, fst_bare]

theorem value_logical (env : m.Env) {l r : Node} (h : n.label = .logicalExpression o)
    (hl : n.child? .left = some l) (hr : n.child? .right = some r) :
    m.value env n = (do
      let v ← m.value env l
      if m.decides o v then return v else m.value env r) := by
  rw [value, eval_eq, h]
  simp only [step, part_eq hl, part_eq hr, fst_bare]

theorem value_call (env : m.Env) {f : Node} (h : n.label = .callExpression)
    (hf : n.child? .callee = some f) :
    m.value env n = (do
      let (g, receiver) ← m.eval f env
      m.invoke g receiver (← m.arguments env (n.row .arguments))) := by
  have hrow : ((n.subtrees.map fun c => (c.1, c.2, m.eval c.2)).filter
      fun c => c.1 = .arguments).map Prod.snd = (n.row .arguments).map fun a => (a, m.eval a) := by
    simp [row, List.filter_map, Function.comp_def]
  rw [value, eval_eq, h]
  simp only [step, find?_subtrees, hf, Option.map_some, hrow, fst_bare]
  rfl

theorem arguments_cons (a : Node) (args : List Node) :
    m.arguments env (a :: args) = (do
      let v ← m.value env a
      let vs ← if isSpread a then m.spread v else pure [v]
      return vs ++ (← m.arguments env args)) := by
  simp [arguments, parts, value]

/-- What is no member access has no receiver. -/
theorem eval_bare (h : ∀ computed, n.label ≠ .memberExpression computed) :
    m.eval n env = m.bare (m.value env n) := by
  have hbare (v : M m.Value) : m.bare v = m.bare (Prod.fst <$> m.bare v) := by rw [fst_bare]
  rw [value, eval_eq]
  cases hl : n.label
  case memberExpression computed => exact absurd hl (h computed)
  all_goals exact hbare _

end

end Machine

/-! ### Parameters and arguments -/

/-- The name a parameter has, if it is a plain one or collects the rest under a name. -/
def paramName? (p : Node) : Option String :=
  match p.label with
  | .identifier x => some x
  | .restElement => (p.child? .argument).bind identifierName?
  | _ => none

/-- Parameters with names of their own, of which the last may collect the rest. -/
structure PlainParams (ps : List Node) : Prop where
  named : ∀ p ∈ ps, (paramName? p).isSome
  distinct : (ps.filterMap paramName?).Nodup
  last : ∀ p ∈ ps.dropLast, p.label ≠ .restElement

/-- Arguments fit parameters: there is one for each, and any number for one that collects the
rest. -/
def fits : List Node → List Node → Bool
  | [], args => args.isEmpty
  | p :: ps, args =>
    p.label = .restElement ||
      match args with
      | [] => false
      | a :: args => !isSpread a && fits ps args

/-- An argument passes a parameter on: by its name, or spread if the parameter collects the rest. -/
inductive PassesOn (a p : Node) : Prop where
  | name (x : String) (arg : a.label = .identifier x) (param : p.label = .identifier x)
  | rest (x : String) (arg : a.label = .spreadElement) (param : p.label = .restElement)
    (spread : (a.child? .argument).bind identifierName? = some x)
    (collected : (p.child? .argument).bind identifierName? = some x)

theorem PlainParams.tail {p : Node} {ps : List Node} (h : PlainParams (p :: ps)) :
    PlainParams ps := by
  obtain ⟨x,hx⟩ := Option.isSome_iff_exists.mp (h.named p (by simp))
  have hdistinct := h.distinct
  rw [List.filterMap_cons_some hx] at hdistinct
  refine ⟨fun q hq => h.named q (List.mem_cons_of_mem _ hq),(List.nodup_cons.mp hdistinct).2,?_⟩
  intro q hq
  cases ps with
  | nil => cases hq
  | cons q' ps => exact h.last q (by simp [hq])

theorem PlainParams.notMem {p : Node} {ps : List Node} {x : String} (h : PlainParams (p :: ps))
    (hx : paramName? p = some x) : x ∉ ps.filterMap paramName? := by
  have hdistinct := h.distinct
  rw [List.filterMap_cons_some hx] at hdistinct
  exact (List.nodup_cons.mp hdistinct).1

theorem PlainParams.eq_nil {p : Node} {ps : List Node} (h : PlainParams (p :: ps))
    (hp : p.label = .restElement) : ps = [] := by
  cases ps with
  | nil => rfl
  | cons q ps => exact absurd hp (h.last p (by simp))

namespace Machine
variable {M : Type → Type} [Monad M]

/-- Values fit parameters as arguments do. -/
def Fits (m : Machine M) : List Node → List m.Value → Prop
  | [], vs => vs = []
  | p :: ps, vs => p.label = .restElement ∨ ∃ v rest, vs = v :: rest ∧ m.Fits ps rest

variable {m : Machine M} {env : m.Env}

theorem read_bind_of_ne {x y : String} (h : y ≠ x) (v : m.Value) :
    m.read (m.bind env x v) y = m.read env y := by rw [m.read_bind, if_neg h]

theorem read_bind_self (x : String) (v : m.Value) : m.read (m.bind env x v) x = pure v := by
  rw [m.read_bind, if_pos rfl]

theorem bindParams_identifier {p : Node} {x : String} (hp : p.label = .identifier x)
    (ps : List Node) (vs : List m.Value) :
    m.bindParams env (p :: ps) vs =
      m.bindParams (m.bind env x (vs.headD m.undefined)) ps vs.tail := by
  rw [bindParams, hp]

theorem bindParams_rest {p : Node} {x : String} (hp : p.label = .restElement)
    (hx : (p.child? .argument).bind identifierName? = some x) (ps : List Node)
    (vs : List m.Value) :
    m.bindParams env (p :: ps) vs = m.bindParams (m.bind env x (m.array vs)) ps [] := by
  rw [bindParams, hp]
  simp only [hx]

/-- Plain parameters are bound without any effect, and bind their own names only. -/
theorem bindParams_plain (env : m.Env) {ps : List Node} (h : PlainParams ps) (vs : List m.Value) :
    ∃ inner, m.bindParams env ps vs = pure inner ∧
      ∀ y, y ∉ ps.filterMap paramName? → m.read inner y = m.read env y := by
  induction ps generalizing env vs with
  | nil => exact ⟨env,rfl,fun _ _ => rfl⟩
  | cons p ps ih =>
    obtain ⟨x,hx⟩ := Option.isSome_iff_exists.mp (h.named p (by simp))
    have hstep : ∃ v rest,
        m.bindParams env (p :: ps) vs = m.bindParams (m.bind env x v) ps rest := by
      unfold paramName? at hx
      split at hx
      · rename_i hp
        obtain rfl := Option.some.inj hx
        exact ⟨_,_,bindParams_identifier hp ps vs⟩
      · rename_i hp
        exact ⟨_,_,bindParams_rest hp hx ps vs⟩
      · cases hx
    obtain ⟨v,rest,hstep⟩ := hstep
    obtain ⟨inner,hinner,hread⟩ := ih (m.bind env x v) h.tail rest
    refine ⟨inner,hstep.trans hinner,fun y hy => ?_⟩
    rw [List.filterMap_cons_some hx, List.mem_cons, not_or] at hy
    rw [hread y hy.2, read_bind_of_ne hy.1]

variable [LawfulMonad M]

/-- Arguments that fit come to values that do. -/
theorem arguments_fit (env : m.Env) {ps args : List Node} (h : fits ps args = true) :
    ∃ found : M { vs // m.Fits ps vs }, m.arguments env args = Subtype.val <$> found := by
  induction ps generalizing args with
  | nil =>
    obtain rfl : args = [] := by simpa [fits] using h
    exact ⟨pure ⟨[],rfl⟩,by simp [arguments_nil]⟩
  | cons p ps ih =>
    by_cases hrest : p.label = .restElement
    · refine ⟨(fun vs => ⟨vs,.inl hrest⟩) <$> m.arguments env args,?_⟩
      simp
    · cases args with
      | nil => simp [fits, hrest] at h
      | cons a args =>
        obtain ⟨hspread,hfits⟩ := by simpa [fits, hrest] using h
        obtain ⟨found,hfound⟩ := ih hfits
        refine ⟨(do
          let v ← m.value env a
          let vs ← found
          return ⟨v :: vs.1,.inr ⟨v,vs.1,rfl,vs.2⟩⟩),?_⟩
        rw [arguments_cons, hfound]
        simp [hspread]

/-- What holds of all values that fit holds of those that fitting arguments come to. -/
theorem arguments_bind_congr {ps args : List Node} (h : fits ps args = true) {α : Type}
    {f g : List m.Value → M α} (hfg : ∀ vs, m.Fits ps vs → f vs = g vs) :
    m.arguments env args >>= f = m.arguments env args >>= g := by
  obtain ⟨found,hfound⟩ := arguments_fit env h
  simp only [hfound, bind_map_left]
  exact bind_congr fun vs => hfg vs.1 vs.2

/-- Arguments that pass all parameters on come to the values the parameters were bound to. -/
theorem arguments_passedOn (env : m.Env) {ps args : List Node} (h : PlainParams ps)
    (hpass : List.Forall₂ PassesOn args ps) {vs : List m.Value} (hvs : m.Fits ps vs) :
    ∃ inner, m.bindParams env ps vs = pure inner ∧
      (∀ y, y ∉ ps.filterMap paramName? → m.read inner y = m.read env y) ∧
        m.arguments inner args = pure vs := by
  induction hpass generalizing env vs with
  | nil =>
    obtain rfl := hvs
    exact ⟨env,rfl,fun _ _ => rfl,rfl⟩
  | @cons a p args ps hap hall ih =>
    cases hap with
    | name x harg hparam =>
      have hx : paramName? p = some x := by rw [paramName?, hparam]
      obtain ⟨v,rest,rfl,hrest⟩ := hvs.resolve_left (by simp [hparam])
      obtain ⟨inner,hinner,hread,hargs⟩ := ih (m.bind env x v) h.tail hrest
      refine ⟨inner,(bindParams_identifier hparam ps _).trans hinner,fun y hy => ?_,?_⟩
      · rw [List.filterMap_cons_some hx, List.mem_cons, not_or] at hy
        rw [hread y hy.2, read_bind_of_ne hy.1]
      · have hvalue : m.value inner a = pure v := by
          rw [value_identifier harg, hread x (h.notMem hx), read_bind_self]
        rw [arguments_cons, hvalue, hargs]
        simp [isSpread, harg]
    | rest x harg hparam hspread hcollected =>
      obtain rfl := h.eq_nil hparam
      obtain rfl := List.forall₂_nil_right_iff.mp hall
      have hx : paramName? p = some x := by rw [paramName?, hparam]; exact hcollected
      refine ⟨m.bind env x (m.array vs),?_,fun y hy => ?_,?_⟩
      · exact bindParams_rest hparam hcollected [] vs
      · rw [List.filterMap_cons_some hx, List.mem_cons, not_or] at hy
        exact read_bind_of_ne hy.1 _
      · obtain ⟨c,hc,hname⟩ := Option.bind_eq_some_iff.mp hspread
        have hvalue : m.value (m.bind env x (m.array vs)) a = pure (m.array vs) := by
          rw [value_spread harg hc, value_identifier (label_of_identifierName? hname),
            read_bind_self]
        rw [arguments_cons, hvalue, arguments_nil]
        simp [isSpread, harg, m.spread_array]

end Machine

/-! ### Functions that wrap an operation -/

/-- Whether a label is one that parsed trees have: no name begins with dots, and `||` and `&&`, and
no other operators, stand under the label for logical ones. -/
def isParsedLabel : Label → Bool
  | .identifier x => x.toList.head? ≠ some '.'
  | .binaryExpression o => o ≠ "||" && o ≠ "&&"
  | .logicalExpression o => o = "||" || o = "&&"
  | _ => true

/-- What holds of every function that was parsed. -/
structure Parsed (f : Node) : Prop where
  labels : ∀ e ∈ f.positions [], isParsedLabel e.2 = true
  arguments : ∀ e ∈ returned? f, ∀ a ∈ e.row .arguments, a.label ≠ .restElement

theorem Parsed.label {f a : Node} {q : Path} (h : Parsed f) (ha : f.at? q = some a) :
    isParsedLabel a.label = true :=
  h.labels (q, a.label) (mem_positions.mpr ⟨q,rfl,by rw [labelAt?, ha]; rfl⟩)

/-- A function that runs to its end when it is called, with parameters of plain names. -/
structure PlainFunction (f : Node) : Prop where
  flags : ∃ flags, Machine.flags? f.label = some flags ∧ flags.generator = false ∧
    flags.isAsync = false
  params : PlainParams (f.row .params)

theorem exists_at?_returned {f e : Node} (h : returned? f = some e) : ∃ q, f.at? q = some e := by
  obtain ⟨body,hbody,h⟩ := Option.bind_eq_some_iff.mp h
  obtain ⟨i,hi⟩ := exists_at?_of_child? hbody
  split at h
  · exact ⟨[i],Option.some.inj h ▸ hi⟩
  · split at h
    · rename_i s hrow
      split at h
      · obtain ⟨j,hj⟩ := exists_at?_of_row (n := body) (f := .body) (c := s) (by rw [hrow]; simp)
        obtain ⟨k,hk⟩ := exists_at?_of_child? h
        refine ⟨[i] ++ ([j] ++ [k]),?_⟩
        rw [at?_append, hi, Option.bind_some, at?_append, hj, Option.bind_some, hk]
      · cases h
    · cases h

/-- A parameter that an identifier names is that name. -/
private theorem label_of_passedName? {p : Node} {x : String} (h : passedName? p = some x)
    (hx : isParsedLabel (.identifier x) = true) : p.label = .identifier x := by
  unfold passedName? at h
  split at h
  · rename_i hl
    rw [hl, Option.some.inj h]
  -- The names of rest and spread elements begin with dots.
  · obtain ⟨y,-,rfl⟩ := Option.map_eq_some_iff.mp h
    simp [isParsedLabel] at hx
  · obtain ⟨y,-,rfl⟩ := Option.map_eq_some_iff.mp h
    simp [isParsedLabel] at hx
  · cases h

private theorem passesOn_of_passedName? {a p : Node} (hp : (paramName? p).isSome)
    (harg : a.label ≠ .restElement) (ha : isParsedLabel a.label = true)
    (hlabel : isParsedLabel p.label = true) {x : String} (hx : passedName? p = some x)
    (h : passedName? a = some x) : PassesOn a p := by
  unfold passedName? at h
  split at h
  · rename_i y hy
    obtain rfl := Option.some.inj h
    exact .name y hy (label_of_passedName? hx (hy ▸ ha))
  · rename_i hrest
    exact absurd hrest harg
  · rename_i hspread
    obtain ⟨y,hy,rfl⟩ := Option.map_eq_some_iff.mp h
    unfold passedName? at hx
    split at hx
    · rename_i z hz
      obtain rfl := Option.some.inj hx
      simp [hz, isParsedLabel] at hlabel
    · rename_i hrest
      obtain ⟨z,hz,hzy⟩ := Option.map_eq_some_iff.mp hx
      obtain rfl : z = y := by simpa using hzy
      exact .rest z hspread hrest hy hz
    · rename_i hspread
      simp [paramName?, hspread] at hp
    · cases hx
  · cases h

private theorem isNamed_iff {n : Option Node} {name : Option String} :
    isNamed n name = true ↔ ∃ c x, n = some c ∧ c.label = .identifier x ∧ name = some x := by
  unfold isNamed
  constructor
  · intro h
    split at h
    · rename_i a b ha
      obtain ⟨c,hc,hname⟩ := Option.bind_eq_some_iff.mp ha
      exact ⟨c,a,hc,label_of_identifierName? hname,by simpa using (of_decide_eq_true h).symm⟩
    · cases h
  · rintro ⟨c,x,rfl,hc,rfl⟩
    simp [identifierName?, hc]

/-- Arguments that a forwarding call has pass the parameters on one by one. -/
private theorem forall₂_of_forwards {args ps : List Node}
    (hargs : ∀ a ∈ args, a.label ≠ .restElement ∧ isParsedLabel a.label = true)
    (hps : ∀ p ∈ ps, (paramName? p).isSome ∧ isParsedLabel p.label = true)
    (h : forwards args (ps.map passedName?) = true) : List.Forall₂ PassesOn args ps := by
  unfold forwards at h
  obtain ⟨hlen,hall⟩ := by simpa only [Bool.and_eq_true, decide_eq_true_eq, List.length_map] using h
  clear h
  induction args generalizing ps with
  | nil =>
    obtain rfl := List.length_eq_zero_iff.mp hlen.symm
    exact .nil
  | cons a args ih =>
    cases ps with
    | nil => cases hlen
    | cons p ps =>
      obtain ⟨⟨hrest,ha⟩,hargs⟩ := List.forall_mem_cons.mp hargs
      obtain ⟨⟨hname,hp⟩,hps⟩ := List.forall_mem_cons.mp hps
      rw [List.map_cons, List.zip_cons_cons, List.all_cons, Bool.and_eq_true] at hall
      obtain ⟨hhere,hall⟩ := hall
      obtain ⟨hsome,heq⟩ := by simpa only [Bool.and_eq_true, decide_eq_true_eq] using hhere
      obtain ⟨x,hx⟩ := Option.isSome_iff_exists.mp hsome
      refine .cons (passesOn_of_passedName? hname hrest ha hp hx (heq.trans hx)) ?_
      exact ih hargs hps (Nat.succ.inj hlen) hall

/-- What a function returns that wraps an operation. -/
theorem exists_of_classify {f : Node} {op : Operation} {flags : FunctionFlags}
    (hflags : Machine.flags? f.label = some flags) (h : classify f = some op) :
    ∃ e, returned? f = some e ∧ wrapped? ((f.row .params).map passedName?) e = some op := by
  have hstring : f.stringValue? = none := by
    unfold stringValue?
    split
    · rename_i hl
      rw [hl] at hflags
      cases hflags
    · rfl
  unfold classify at h
  rw [hstring] at h
  dsimp only at h
  split at h
  · exact Option.bind_eq_some_iff.mp h
  · exact Option.bind_eq_some_iff.mp h
  · cases h

/-- Whether the operands of an expression are the first two parameters. -/
def TakesOperands (params : List (Option String)) (e : Node) : Prop :=
  isNamed (e.child? .left) params[0]?.join = true ∧ isNamed (e.child? .right) params[1]?.join = true

/-- Each kind of operation is wrapped in its own way. -/
private theorem wrapped?_cases {params : List (Option String)} {e : Node} {op : Operation}
    (h : wrapped? params e = some op) :
    (∃ o, op = .binary o ∧ e.label = .binaryExpression o ∧ TakesOperands params e) ∨
      (∃ o, op = .logical o ∧ e.label = .logicalExpression o ∧ TakesOperands params e) ∨
        op = .call ∧ e.label = .callExpression ∧ ∃ p rest, params = p :: rest ∧
          isNamed (e.child? .callee) p = true ∧ forwards (e.row .arguments) rest = true := by
  simp only [wrapped?] at h
  split at h
  · rename_i o hl
    obtain ⟨hoperands,hop⟩ := Option.ite_none_right_eq_some.mp h
    exact .inl ⟨o,(Option.some.inj hop).symm,hl,Bool.and_eq_true_iff.mp hoperands⟩
  · rename_i o hl
    obtain ⟨hoperands,hop⟩ := Option.ite_none_right_eq_some.mp h
    exact .inr (.inl ⟨o,(Option.some.inj hop).symm,hl,Bool.and_eq_true_iff.mp hoperands⟩)
  · rename_i hl
    split at h
    · cases h
    · rename_i p rest
      obtain ⟨hforwards,hop⟩ := Option.ite_none_right_eq_some.mp h
      obtain ⟨hcallee,hargs⟩ := Bool.and_eq_true_iff.mp hforwards
      exact .inr (.inr ⟨(Option.some.inj hop).symm,hl,p,rest,rfl,hcallee,hargs⟩)
  · cases h

/-- The first two parameters, if they are the operands of what is returned. -/
private theorem operands_of_wrapped {f e : Node} (hf : Parsed f) (he : returned? f = some e)
    (h : TakesOperands ((f.row .params).map passedName?) e) :
    ∃ p q ps l r x y, f.row .params = p :: q :: ps ∧ p.label = .identifier x ∧
      q.label = .identifier y ∧ e.child? .left = some l ∧ l.label = .identifier x ∧
        e.child? .right = some r ∧ r.label = .identifier y := by
  obtain ⟨hleft,hright⟩ := h
  obtain ⟨l,x,hl,hlx,hx⟩ := isNamed_iff.mp hleft
  obtain ⟨r,y,hr,hry,hy⟩ := isNamed_iff.mp hright
  obtain ⟨i,hi⟩ := exists_at?_returned he
  have hparsed {c : Node} {field : Field} {z : String} (hc : e.child? field = some c)
      (hz : c.label = .identifier z) : isParsedLabel (.identifier z) = true := by
    obtain ⟨j,hj⟩ := exists_at?_of_child? hc
    rw [← hz]
    exact hf.label (q := i ++ [j]) (by rw [at?_append, hi, Option.bind_some, hj])
  rcases hrow : f.row .params with _ | ⟨p,_ | ⟨q,ps⟩⟩
  · simp [hrow] at hx
  · simp [hrow] at hy
  · have hp : passedName? p = some x := by simpa [hrow] using hx
    have hq : passedName? q = some y := by simpa [hrow] using hy
    exact ⟨p,q,ps,l,r,x,y,rfl,label_of_passedName? hp (hparsed hl hlx),
      label_of_passedName? hq (hparsed hr hry),hl,hlx,hr,hry⟩

namespace Machine
variable {M : Type → Type} [Monad M] {m : Machine M}

/-- A plain function binds its parameters and evaluates what it returns. -/
theorem apply_plain {f e : Node} (h : PlainFunction f) (he : returned? f = some e)
    (closure : m.Env) (vs : List m.Value) :
    m.apply closure f vs = (do m.value (← m.bindParams closure (f.row .params) vs) e) := by
  obtain ⟨flags,hflags,hgenerator,hasync⟩ := h.flags
  simp only [apply, hflags, hgenerator, hasync, he, Bool.or_self, Bool.false_eq_true, if_false]

variable [LawfulMonad M]

/-- In the environment of two arguments the operands are these. -/
theorem operands_bound {f e : Node} (h : PlainFunction f) (hf : Parsed f)
    (he : returned? f = some e)
    (hop : TakesOperands ((f.row .params).map passedName?) e) (closure : m.Env) (v w : m.Value) :
    ∃ inner l r, m.bindParams closure (f.row .params) [v, w] = pure inner ∧
      e.child? .left = some l ∧ m.value inner l = pure v ∧
        e.child? .right = some r ∧ m.value inner r = pure w := by
  obtain ⟨p,q,ps,l,r,x,y,hrow,hp,hq,hl,hlx,hr,hry⟩ := operands_of_wrapped hf he hop
  have hplain := h.params
  rw [hrow] at hplain
  have hxname : paramName? p = some x := by rw [paramName?, hp]
  have hyname : paramName? q = some y := by rw [paramName?, hq]
  have hx := hplain.notMem hxname
  rw [List.filterMap_cons_some hyname, List.mem_cons, not_or] at hx
  obtain ⟨inner,hinner,hread⟩ :=
    bindParams_plain (m.bind (m.bind closure x v) y w) hplain.tail.tail []
  refine ⟨inner,l,r,?_,hl,?_,hr,?_⟩
  · rw [hrow, bindParams_identifier hp, bindParams_identifier hq]
    exact hinner
  · rw [value_identifier hlx, hread x hx.2, read_bind_of_ne hx.1, read_bind_self]
  · rw [value_identifier hry, hread y (hplain.tail.notMem hyname), read_bind_self]

theorem arguments_pair {env : m.Env} {a b : Node} (ha : isSpread a = false)
    (hb : isSpread b = false) :
    m.arguments env [a, b] = (do return [← m.value env a, ← m.value env b]) := by
  simp [arguments_cons, arguments_nil, ha, hb]

/-- In the environment of fitting arguments a forwarded call is one of the first with the others. -/
theorem forwarded_bound {f e : Node} (h : PlainFunction f) (hf : Parsed f)
    (he : returned? f = some e)
    {ps : List Node} {p : Node} (hrow : f.row .params = p :: ps)
    (hcallee : isNamed (e.child? .callee) (passedName? p) = true)
    (hforwards : forwards (e.row .arguments) (ps.map passedName?) = true) :
    p.label ≠ .restElement ∧ ∃ c, e.child? .callee = some c ∧ (∃ x, c.label = .identifier x) ∧
      ∀ (closure : m.Env) v vs, m.Fits ps vs →
        ∃ inner, m.bindParams closure (f.row .params) (v :: vs) = pure inner ∧
          m.value inner c = pure v ∧ m.arguments inner (e.row .arguments) = pure vs := by
  obtain ⟨c,x,hc,hcx,hx⟩ := isNamed_iff.mp hcallee
  obtain ⟨i,hi⟩ := exists_at?_returned he
  have hparsed {a : Node} {field : Field} (ha : a ∈ e.row field) :
      isParsedLabel a.label = true := by
    obtain ⟨j,hj⟩ := exists_at?_of_row ha
    exact hf.label (q := i ++ [j]) (by rw [at?_append, hi, Option.bind_some, hj])
  have hp := label_of_passedName? hx (hcx ▸ hparsed (mem_row_of_child? hc))
  have hplain := h.params
  rw [hrow] at hplain
  have hpass : List.Forall₂ PassesOn (e.row .arguments) ps := by
    refine forall₂_of_forwards (fun a ha => ⟨hf.arguments e he a ha,hparsed ha⟩) (fun q hq => ?_)
      hforwards
    refine ⟨hplain.named q (List.mem_cons_of_mem _ hq),?_⟩
    obtain ⟨j,hj⟩ := exists_at?_of_row (n := f) (f := .params) (c := q) (by simp [hrow, hq])
    exact hf.label hj
  refine ⟨by simp [hp],c,hc,⟨x,hcx⟩,fun closure v vs hvs => ?_⟩
  obtain ⟨inner,hinner,hread,hargs⟩ :=
    arguments_passedOn (m.bind closure x v) hplain.tail hpass hvs
  refine ⟨inner,?_,?_,hargs⟩
  · rw [hrow, bindParams_identifier hp]
    exact hinner
  · rw [value_identifier hcx, hread x (hplain.notMem (by rw [paramName?, hp])), read_bind_self]

end Machine

/-- What is put in the place of a call of a function with arguments means what the call means. A
logical operation leaves its second operand alone where the first one decides, which makes no
difference where that operand has no effect. What is called on is called with the same arguments,
and with the same receiver unless it is read off an object. -/
def Operation.Means {M : Type → Type} [Monad M] (m : Machine M) (closure env : m.Env) (f : Node)
    (args : List Node) (e : Node) : Operation → Prop
  | .string _ => False
  | .binary _ => m.value env e = m.called closure env f args
  | .logical o => ∃ a b, args = [a, b] ∧
      m.value env e = (do
        let v ← m.value env a
        if m.decides o v then return v else m.value env b) ∧
      m.called closure env f args = (do
        let v ← m.value env a
        let w ← m.value env b
        return if m.decides o v then v else w) ∧
      ((∃ w, m.value env b = pure w) → m.value env e = m.called closure env f args)
  | .call => ∃ a rest, args = a :: rest ∧ (fits (f.row .params) args = true →
      m.value env e = (do
        let (g, receiver) ← m.eval a env
        m.invoke g receiver (← m.arguments env rest)) ∧
      m.called closure env f args = (do
        let g ← m.value env a
        m.invoke g m.undefined (← m.arguments env rest)) ∧
      ((∀ computed, a.label ≠ .memberExpression computed) →
        m.value env e = m.called closure env f args))

section
variable {M : Type → Type} [Monad M] [LawfulMonad M] (m : Machine M) (closure env : m.Env)
  {f e : Node} {o : String} {a b : Node}

private theorem label_binary (hparsed : isParsedLabel (.binaryExpression o) = true) :
    (binary o a b).label = .binaryExpression o := by
  obtain ⟨hor,hand⟩ := by simpa [isParsedLabel] using hparsed
  simp [binary, hor, hand, label]

private theorem label_logical (hparsed : isParsedLabel (.logicalExpression o) = true) :
    (binary o a b).label = .logicalExpression o := by
  have ho : o = "||" ∨ o = "&&" := by simpa [isParsedLabel] using hparsed
  simp [binary, ho, label]

private theorem child?_binary_left : (binary o a b).child? .left = some a := rfl

private theorem child?_binary_right : (binary o a b).child? .right = some b := rfl

/-- A call with two arguments is a call of the operation that the function returns. -/
private theorem called_pair (h : PlainFunction f) (hf : Parsed f) (he : returned? f = some e)
    (hop : TakesOperands ((f.row .params).map passedName?) e)
    (operate : m.Value → m.Value → M m.Value)
    (hvalue : ∀ inner l r v w, e.child? .left = some l → e.child? .right = some r →
      m.value inner l = pure v → m.value inner r = pure w → m.value inner e = operate v w)
    (ha : isSpread a = false) (hb : isSpread b = false) :
    m.called closure env f [a, b] = (do operate (← m.value env a) (← m.value env b)) := by
  have happly (v w : m.Value) : m.apply closure f [v, w] = operate v w := by
    obtain ⟨inner,l,r,hinner,hl,hlv,hr,hrw⟩ := Machine.operands_bound h hf he hop closure v w
    rw [Machine.apply_plain h he, hinner, pure_bind, hvalue inner l r v w hl hr hlv hrw]
  rw [Machine.called, Machine.arguments_pair ha hb]
  simp [happly]

private theorem means_binary (h : PlainFunction f) (hf : Parsed f) (he : returned? f = some e)
    (hl : e.label = .binaryExpression o) (hop : TakesOperands ((f.row .params).map passedName?) e)
    (ha : isSpread a = false) (hb : isSpread b = false) :
    (Operation.binary o).Means m closure env f [a, b] (binary o a b) := by
  obtain ⟨i,hi⟩ := exists_at?_returned he
  have hparsed := hl ▸ hf.label hi
  rw [Operation.Means, Machine.value_binary (label_binary hparsed) child?_binary_left
    child?_binary_right]
  refine (called_pair m closure env h hf he hop (m.operate o) (fun inner l r v w hl' hr hv hw => ?_)
    ha hb).symm
  rw [Machine.value_binary hl hl' hr, hv, hw]
  simp

private theorem means_logical (h : PlainFunction f) (hf : Parsed f) (he : returned? f = some e)
    (hl : e.label = .logicalExpression o) (hop : TakesOperands ((f.row .params).map passedName?) e)
    (ha : isSpread a = false) (hb : isSpread b = false) :
    (Operation.logical o).Means m closure env f [a, b] (binary o a b) := by
  obtain ⟨i,hi⟩ := exists_at?_returned he
  have hparsed := hl ▸ hf.label hi
  have hvalue := Machine.value_logical env (label_logical (a := a) (b := b) hparsed)
    child?_binary_left child?_binary_right
  have hcalled := called_pair m closure env h hf he hop
    (fun v w => return if m.decides o v then v else w)
    (fun inner l r v w hleft hright hv hw => by
      rw [Machine.value_logical inner hl hleft hright, hv, hw, pure_bind]
      split <;> rfl) ha hb
  refine ⟨a,b,rfl,hvalue,hcalled,?_⟩
  rintro ⟨w,hw⟩
  rw [hvalue, hcalled, hw]
  refine bind_congr fun v => ?_
  rw [pure_bind]
  split <;> rfl

private theorem means_call (h : PlainFunction f) (hf : Parsed f) (he : returned? f = some e)
    (hl : e.label = .callExpression) {p : Node} {ps rest : List Node}
    (hrow : f.row .params = p :: ps) (hcallee : isNamed (e.child? .callee) (passedName? p) = true)
    (hforwards : forwards (e.row .arguments) (ps.map passedName?) = true)
    (ha : isSpread a = false) :
    Operation.call.Means m closure env f (a :: rest) (call a rest) := by
  obtain ⟨hp,c,hc,⟨x,hx⟩,hbound⟩ := Machine.forwarded_bound (m := m) h hf he hrow hcallee hforwards
  have hrest : (call a rest).row .arguments = rest := by
    simp [call, row, subtrees, List.filter_map, Function.comp_def]
  have hvalue := Machine.value_call env (n := call a rest) (f := a) rfl rfl
  rw [hrest] at hvalue
  refine ⟨a,rest,rfl,fun hfits => ?_⟩
  have hfits : fits ps rest = true := by simpa [fits, hrow, hp, ha] using hfits
  have happly (v : m.Value) (vs : List m.Value) (hvs : m.Fits ps vs) :
      m.apply closure f (v :: vs) = m.invoke v m.undefined vs := by
    obtain ⟨inner,hinner,hv,hargs⟩ := hbound closure v vs hvs
    rw [Machine.apply_plain h he, hinner, pure_bind, Machine.value_call inner hl hc,
      Machine.eval_bare (by simp [hx]), hv, hargs]
    simp [Machine.bare]
  have hcalled : m.called closure env f (a :: rest) = (do
      let g ← m.value env a
      m.invoke g m.undefined (← m.arguments env rest)) := by
    rw [Machine.called, Machine.arguments_cons]
    simp only [ha, Bool.false_eq_true, if_false, bind_assoc, pure_bind, List.singleton_append]
    exact bind_congr fun v => Machine.arguments_bind_congr hfits fun vs hvs => happly v vs hvs
  refine ⟨hvalue,hcalled,fun hmember => ?_⟩
  rw [hvalue, hcalled, Machine.eval_bare hmember]
  simp [Machine.bare]

end

/-- An operation takes the place of a call with two arguments. -/
private theorem applied?_operation {o : String} {args : List Node} {e : Node}
    (h : (Operation.binary o).applied? args = some e) :
    ∃ a b, args = [a, b] ∧ isSpread a = false ∧ isSpread b = false ∧ e = binary o a b := by
  simp only [Operation.applied?] at h
  split at h
  · rename_i a b
    obtain ⟨hspread,he⟩ := Option.ite_none_left_eq_some.mp h
    obtain ⟨ha,hb⟩ := by simpa only [Bool.or_eq_true, not_or, Bool.not_eq_true] using hspread
    exact ⟨a,b,rfl,ha,hb,(Option.some.inj he).symm⟩
  · cases h

/-- A call of the first argument takes the place of a forwarded call. -/
private theorem applied?_forwarded {args : List Node} {e : Node}
    (h : Operation.call.applied? args = some e) :
    ∃ a rest, args = a :: rest ∧ isSpread a = false ∧ e = call a rest := by
  simp only [Operation.applied?] at h
  split at h
  · rename_i a rest
    obtain ⟨ha,he⟩ := Option.ite_none_left_eq_some.mp h
    exact ⟨a,rest,rfl,Bool.not_eq_true _ ▸ ha,(Option.some.inj he).symm⟩
  · cases h

/-- What replaces a call through a proxy object means what the call of the wrapping function means,
on every machine. -/
theorem inlined_means {M : Type → Type} [Monad M] [LawfulMonad M] (m : Machine M)
    (closure env : m.Env) {t : ProxyTable} {ctx : Context} {n f e : Node} {op : Operation}
    (hcall : n.label = .callExpression) (hmember : (n.child? .callee).bind t.member? = some op)
    (hop : classify f = some op) (hplain : PlainFunction f) (hparsed : Parsed f)
    (h : (proxyRule t).finish ctx n = .replace n (.node e)) :
    op.Means m closure env f (n.row .arguments) e := by
  have happlied : op.applied? (n.row .arguments) = some e := by
    obtain ⟨access,op',r,haccess,hop',hr,he⟩ := exists_of_replaced (congrArg Visit.replaced h)
    obtain rfl := Replacement.node.inj he
    simp only [access?, hcall] at haccess
    rw [haccess, Option.bind_some, hop'] at hmember
    obtain rfl := Option.some.inj hmember
    unfold Operation.outcome? at hr
    rwa [if_pos hcall] at hr
  obtain ⟨flags,hflags,-⟩ := hplain.flags
  obtain ⟨e₀,he,hwrapped⟩ := exists_of_classify hflags hop
  obtain ⟨o,rfl,hl,hop⟩ | ⟨o,rfl,hl,hop⟩ | ⟨rfl,hl,p,rest,hrow,hcallee,hforwards⟩ :=
    wrapped?_cases hwrapped
  · obtain ⟨a,b,hargs,ha,hb,rfl⟩ := applied?_operation happlied
    rw [hargs]
    exact means_binary m closure env hplain hparsed he hl hop ha hb
  · obtain ⟨a,b,hargs,ha,hb,rfl⟩ := applied?_operation (o := o) happlied
    rw [hargs]
    exact means_logical m closure env hplain hparsed he hl hop ha hb
  · obtain ⟨first,ps,hparams,rfl,rfl⟩ := List.map_eq_cons_iff.mp hrow
    obtain ⟨a,args,hargs,ha,rfl⟩ := applied?_forwarded happlied
    rw [hargs]
    exact means_call m closure env hplain hparsed he hl hparams hcallee hforwards ha

/-! ### A machine that notes what it does -/

/-- A value of its own, or the array of some. -/
inductive Thing where
  | leaf (code : Nat)
  | list (things : List Thing)

def Thing.code : Thing → Nat
  | leaf n => n
  | list _ => 0

/-- A machine that notes operations, calls and patterns with the values they are given. -/
def tracer : Machine (StateM (List (List Nat))) where
  Value := Thing
  Env := String → Thing
  undefined := .leaf 0
  read env x := pure (env x)
  bind env x v := fun y => if y = x then v else env y
  read_bind _ _ _ _ := apply_ite pure _ _ _
  operate _ v w := fun log => (.leaf (v.code + w.code), log ++ [[1, v.code, w.code]])
  decides o v := (v.code ≠ 0) == (o == "||")
  key x := .leaf x.length
  get object _ := pure (.leaf (10 + object.code))
  invoke f receiver vs := fun log => (f, log ++ [2 :: f.code :: receiver.code :: vs.map Thing.code])
  array := .list
  spread v := pure (match v with
    | .list vs => vs
    | .leaf _ => [])
  spread_array _ := rfl
  destructure env _ v := fun log => (env, log ++ [[3, v.code]])
  execute _ _ := pure (.leaf 0)
  defer flags body := if flags.generator then pure (.leaf 100) else do
    let _ ← body
    return .leaf 101
  other _ _ _ := pure (.leaf 0)

/-- The variables at a call, of which one is an array. -/
def world : tracer.Env := fun name =>
  if name = "x" then .leaf 1
  else if name = "y" then .leaf 2
  else if name = "g" then .leaf 3
  else if name = "xs" then .list [.leaf 4, .leaf 5]
  else .leaf 0

/-- What came of a run: the code of the value, and the notes. -/
def outcome (run : StateM (List (List Nat)) Thing) : Nat × List (List Nat) :=
  ((run.run []).1.code, (run.run []).2)

/-- `function (params) { return e; }` -/
def returning (params : List Node) (e : Node) : FunctionFlags → Node := fun flags =>
  .mk (.functionExpression flags) (params.map (fun p => (.params, p)) ++
    [(.body, .block [.mk .returnStatement [(.argument, e)]])])

/-- `p.k(args)` -/
def proxied (args : List Node) : Node :=
  .call (.mk (.memberExpression false)
    [(.object, .identifier "p"), (.property, .identifier "k")]) args

/-- The table of a proxy object `p` with one member. -/
def oneMember (op : Operation) : ProxyTable := [("p", [(Text.ofString "k", op)])]

/-- `function (f, a, ...r) { return f(a, ...r); }` -/
def forwarding : Node :=
  let spread : Node := .mk .spreadElement [(.argument, .identifier "r")]
  returning [.identifier "f", .identifier "a", .mk .restElement [(.argument, .identifier "r")]]
    (.call (.identifier "f") [.identifier "a", spread]) {}

/-- `p.k(g, x, ...xs)` becomes `g(x, ...xs)`. -/
theorem inlined_means_forwarding :
    let args : List Node := [.identifier "g", .identifier "x",
      .mk .spreadElement [(.argument, .identifier "xs")]]
    classify forwarding = some .call ∧ PlainFunction forwarding ∧ Parsed forwarding ∧
      (proxyRule (oneMember .call)).finish Rule.top (proxied args) =
        .replace (proxied args) (.node (.call (.identifier "g") args.tail)) ∧
      fits (forwarding.row .params) args = true ∧
      Operation.call.Means tracer world world forwarding args
        (.call (.identifier "g") args.tail) := by
  intro args
  have hop : classify forwarding = some .call := by decide
  have hplain : PlainFunction forwarding :=
    ⟨⟨{},rfl,rfl,rfl⟩,by decide,by decide,by decide⟩
  have hparsed : Parsed forwarding := by
    refine ⟨by decide,fun e he => ?_⟩
    obtain rfl := Option.some.inj he
    decide
  have hfinish : (proxyRule (oneMember .call)).finish Rule.top (proxied args) =
    .replace (proxied args) (.node (.call (.identifier "g") args.tail)) := rfl
  exact ⟨hop,hplain,hparsed,hfinish,by decide,
    inlined_means tracer world world (n := proxied args) rfl (by decide) hop hplain hparsed hfinish⟩

/-- Functions that wrap an operation, the operation, and arguments with which the call and what
takes its place part. -/
def misfits : List (Node × Operation × List Node) :=
  let named := identifier
  let run (f : String) : Node := .call (named f) []
  let spread : Node := .mk .spreadElement [(.argument, named "xs")]
  let default : Node := .mk .assignmentPattern [(.left, named "c"), (.right, run "d")]
  let sum := returning [named "a", named "b"] (binary "+" (named "a") (named "b"))
  let relay := returning [named "f", named "a"] (.call (named "f") [named "a"])
  let method : Node := .mk (.memberExpression false) [(.object, named "x"), (.property, named "m")]
  -- The second operand is not always evaluated.
  [(returning [named "a", named "b"] (binary "||" (named "a") (named "b")) {}, .logical "||",
    [run "x", run "y"]),
  -- What is called is read off an object.
  (returning [named "f"] (.call (named "f") []) {}, .call, [method]),
  -- Two parameters have one name, or the function does not just run.
  (returning [named "a", named "a"] (binary "+" (named "a") (named "a")) {}, .binary "+",
    [named "x", named "y"]),
  (sum { isAsync := true }, .binary "+", [named "x", named "y"]),
  (sum { generator := true }, .binary "+", [named "x", named "y"]),
  -- A further parameter has a default to evaluate.
  (returning [named "a", named "b", default] (binary "+" (named "a") (named "b")) {}, .binary "+",
    [named "x", named "y"]),
  -- There are more, fewer or unknown numbers of arguments.
  (relay {}, .call, [named "g", named "x", named "y"]),
  (relay {}, .call, [named "g"]),
  (relay {}, .call, [named "g", spread])]

private theorem ne_of_outcome {r r' : StateM (List (List Nat)) Thing}
    (h : outcome r ≠ outcome r') : r ≠ r' := fun heq => h (congrArg outcome heq)

/-- A call of a function that wraps an operation is replaced by what means something else. -/
def Parts (c : Node × Operation × List Node) : Prop :=
  classify c.1 = some c.2.1 ∧ ∃ e,
    (proxyRule (oneMember c.2.1)).finish Rule.top (proxied c.2.2) =
      .replace (proxied c.2.2) (.node e) ∧
    tracer.value world e ≠ tracer.called world world c.1 c.2.2

/-- Not all that is put in the place of a call means what the call means. -/
theorem misfits_part : misfits.Forall Parts := by
  simp only [misfits, List.forall_cons, List.Forall]
  exact ⟨⟨by decide,_,rfl,ne_of_outcome (by decide)⟩,⟨by decide,_,rfl,ne_of_outcome (by decide)⟩,
    ⟨by decide,_,rfl,ne_of_outcome (by decide)⟩,⟨by decide,_,rfl,ne_of_outcome (by decide)⟩,
    ⟨by decide,_,rfl,ne_of_outcome (by decide)⟩,⟨by decide,_,rfl,ne_of_outcome (by decide)⟩,
    ⟨by decide,_,rfl,ne_of_outcome (by decide)⟩,⟨by decide,_,rfl,ne_of_outcome (by decide)⟩,
    ⟨by decide,_,rfl,ne_of_outcome (by decide)⟩⟩

end Unravel.Simplify
