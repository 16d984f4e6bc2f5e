import Mathlib.Data.List.TakeWhile
import Unravel.Proofs.Simplify.Rewrites

/-! What a dispatch loop runs. A loop that sends every label of its order to a case of its own, and
nowhere else, runs the bodies that unflattening lays end to end. -/

namespace Unravel

/-- The label that a statement gives, or that a jump names. -/
def Node.labelName? (n : Node) : Option String := (n.child? .label).bind Node.identifierName?

namespace Simplify

/-- How statements end: after the last one, or with a break or a continue, which may name a label. -/
inductive Ending where
  | normal
  | left (name : Option String)
  | resumed (name : Option String)
deriving DecidableEq

/-- Whether a loop goes on after its body ended so, given the labels that the loop itself has. -/
def Ending.goesOn (names : List String) : Ending → Bool
  | .normal | .resumed none => true
  | .resumed (some name) => names.contains name
  | .left _ => false

/-- The statements that were run, and how they ended. -/
structure Trace where
  executed : List Node
  ending : Ending

namespace Trace

/-- Goes on after statements unless they ended with a jump. -/
def andThen (t u : Trace) : Trace :=
  match t.ending with
  | .normal => ⟨t.executed ++ u.executed, u.ending⟩
  | _ => t

/-- A switch is what a break in it leaves, unless the break names a label. -/
def ofSwitch (t : Trace) : Trace :=
  match t.ending with
  | .left none => ⟨t.executed, .normal⟩
  | _ => t

end Trace

/-- Runs statements up to the first jump among them. -/
def trace : List Node → Trace
  | [] => ⟨[], .normal⟩
  | s :: rest =>
    if s.label = .breakStatement then ⟨[], .left s.labelName?⟩
    else if s.label = .continueStatement then ⟨[], .resumed s.labelName?⟩
    else ⟨s :: (trace rest).executed, (trace rest).ending⟩

/-- Strict equality of a case label that is a string with a text, unit by unit. -/
def answers (label : Text) (c : Node) : Bool :=
  ((c.child? .test).bind Node.stringValue?).any fun t => t.units = label.units

def isDefault (c : Node) : Bool := (c.child? .test).isNone

/-- An endless loop over a switch on the next entry of an order, taken apart. -/
structure Dispatch where
  order : List Text
  before : List Node
  cases : List Node
  after : List Node

namespace Dispatch

def isSwitch (s : Node) : Bool := s.label = .switchStatement

/-- A body taken apart at its first switch. -/
def ofBody (order : List Text) (body : List Node) (switch : Node) : Dispatch where
  order := order
  before := body.takeWhile fun s => !isSwitch s
  cases := switch.row .cases
  after := (body.dropWhile fun s => !isSwitch s).tail

def of? (earlier : List Node) (loop : Node) : Option Dispatch := do
  let body ← loop.child? .body
  let switch ← (body.row .body).find? isSwitch
  let order ← (switch.child? .discriminant).bind (dispatchOrder earlier)
  return ofBody order (body.row .body) switch

/-- The cases from the one on that an entry selects: the first that answers, else the default. -/
def selected (d : Dispatch) (entry : Option Text) : List Node :=
  match entry.map fun label => d.cases.dropWhile fun c => !answers label c with
  | some (c :: rest) => c :: rest
  | _ => d.cases.dropWhile fun c => !isDefault c

/-- Runs the consequents from the selected case on. -/
def switch (d : Dispatch) (entry : Option Text) : Trace :=
  trace ((d.selected entry).flatMap fun c => c.row .consequent)

/-- Runs the body once. -/
def turn (d : Dispatch) (entry : Option Text) : Trace :=
  (trace d.before).andThen ((d.switch entry).ofSwitch.andThen (trace d.after))

/-- Runs the loop from a state on, for at most a number of turns, given the labels that it has. Every
turn that comes to the switch takes the next state; if none does, the state is not read either. -/
def run (d : Dispatch) (names : List String) : Nat → Nat → Trace
  | 0, _ => ⟨[], .normal⟩
  | turns + 1, state =>
    let t := d.turn d.order[state]?
    let rest := d.run names turns (state + 1)
    if t.ending.goesOn names then ⟨t.executed ++ rest.executed, rest.ending⟩ else t

/-- A loop runs some statements, however many turns it is given from some number on. -/
def Executes (d : Dispatch) (names : List String) (ss : List Node) : Prop :=
  ∃ enough, ∀ turns, enough ≤ turns → (d.run names turns 0).executed = ss

/-- A loop in the form that flattening gives it. -/
structure Plain (d : Dispatch) (names : List String) : Prop where
  /-- Nothing but the switch runs in the body. -/
  first : d.before = []
  alone : (trace d.after).executed = []
  /-- A case whose label reads like one of the order is that string, and the only one. -/
  spelled : ∀ label ∈ d.order, ∀ c ∈ d.cases, ∀ t, (c.child? .test).bind caseLabel = some t →
    t.units = label.units → (c.child? .test).bind Node.stringValue? = some label
  single : ∀ label ∈ d.order,
    (d.cases.filter fun c => ((c.child? .test).bind caseLabel) = some label).length ≤ 1
  /-- From a case of the order on nothing runs but all of its own statements. -/
  own : ∀ c later, c :: later <:+ d.cases → (∃ label ∈ d.order, answers label c) →
    (trace ((c :: later).flatMap fun c => c.row .consequent)).executed =
      (c.row .consequent).filter fun s => !isJump s
  /-- Where no case answers, nothing runs, if some turn comes to that. -/
  silent : ((∃ label ∈ d.order, ∀ c ∈ d.cases, answers label c = false) ∨
    ∀ label ∈ d.order.getLast?, (d.turn (some label)).ending.goesOn names = true) →
      (d.switch none).executed = []
  /-- The loop is not left before the last label, by a labelled jump neither. -/
  lasting : ∀ label ∈ d.order.dropLast, (d.turn (some label)).ending.goesOn names = true

section Plain
variable {d : Dispatch} {names : List String} {label : Text}

private theorem answers_iff {c : Node} :
    answers label c = true ↔
      ∃ t, (c.child? .test).bind Node.stringValue? = some t ∧ t.units = label.units := by
  simp [answers, Option.any_eq_true]

private theorem caseLabel_of_stringValue? {c : Node} {t : Text}
    (h : (c.child? .test).bind Node.stringValue? = some t) :
    (c.child? .test).bind caseLabel = some t := by
  obtain ⟨test,htest,ht⟩ := Option.bind_eq_some_iff.mp h
  rw [htest, Option.bind_some, caseLabel, ht]

private theorem find?_reverse_of_filter {α : Type} {p : α → Bool} {l : List α} {a : α}
    (ha : a ∈ l) (hp : p a = true) (h : (l.filter p).length ≤ 1) : l.reverse.find? p = some a := by
  have hmem : a ∈ l.filter p := List.mem_filter.mpr ⟨ha,hp⟩
  obtain ⟨b,hb⟩ := List.length_eq_one_iff.mp (Nat.le_antisymm h (List.length_pos_of_mem hmem))
  obtain rfl : a = b := by simpa [hb] using hmem
  rw [← List.head?_filter, List.filter_reverse, hb]
  rfl

private theorem turn_executed (h : d.Plain names) (entry : Option Text) :
    (d.turn entry).executed = (d.switch entry).executed := by
  rw [turn, h.first]
  rcases hs : d.switch entry with ⟨ss,ending⟩
  rcases ending with _ | (_ | _) | _ <;>
    simp [trace, Trace.andThen, Trace.ofSwitch, h.alone]

theorem Plain.switch_executed (h : d.Plain names) (hl : label ∈ d.order) :
    (d.switch (some label)).executed = caseBody d.cases label := by
  rw [switch, selected, Option.map_some]
  cases hd : d.cases.dropWhile fun c => !answers label c with
  | cons c later =>
    have hans : answers label c = true := by
      have := List.head?_dropWhile_not (fun c => !answers label c) d.cases
      simpa [hd] using this
    obtain ⟨t,ht,hunits⟩ := answers_iff.mp hans
    have hsuffix : c :: later <:+ d.cases := hd ▸ List.dropWhile_suffix _
    have hc : c ∈ d.cases := hsuffix.subset List.mem_cons_self
    have hlabel := caseLabel_of_stringValue?
      (h.spelled label hl c hc t (caseLabel_of_stringValue? ht) hunits)
    have hfind : d.cases.reverse.find? (fun c => ((c.child? .test).bind caseLabel) = some label) = some c :=
      find?_reverse_of_filter hc (by simpa using hlabel) (h.single label hl)
    rw [caseBody, hfind]
    exact h.own c later hsuffix ⟨label,hl,hans⟩
  | nil =>
    have hnone : d.cases.reverse.find? (fun c => ((c.child? .test).bind caseLabel) = some label) = none := by
      refine List.find?_eq_none.mpr fun c hc hlabel => ?_
      have hc := List.mem_reverse.mp hc
      have hstring := h.spelled label hl c hc label (by simpa using hlabel) rfl
      have hans := List.dropWhile_eq_nil_iff.mp hd c hc
      rw [answers_iff.mpr ⟨label,hstring,rfl⟩] at hans
      cases hans
    rw [caseBody, hnone]
    refine h.silent (.inl ⟨label,hl,fun c hc => ?_⟩)
    simpa using List.dropWhile_eq_nil_iff.mp hd c hc

theorem Plain.turn_label (h : d.Plain names) (hl : label ∈ d.order) :
    (d.turn (some label)).executed = caseBody d.cases label := by
  rw [turn_executed h, h.switch_executed hl]

/-- After the last label nothing runs any more, if the loop goes on at all. -/
theorem Plain.run_ended (h : d.Plain names) {state : Nat} (hs : d.order.length ≤ state)
    (hlast : ∀ label ∈ d.order.getLast?, (d.turn (some label)).ending.goesOn names = true)
    (turns : Nat) : (d.run names turns state).executed = [] := by
  have hnone : (d.turn none).executed = [] := by
    rw [turn_executed h]
    exact h.silent (.inr hlast)
  induction turns generalizing state with
  | zero => rfl
  | succ turns ih =>
    simp only [run, List.getElem?_eq_none hs]
    split
    · rw [hnone, ih (Nat.le_succ_of_le hs)]
      rfl
    · exact hnone

/-- A run that has some labels before it executes their cases in turn. If it has none, the loop is to
go on after the last one. -/
theorem Plain.run_labels (h : d.Plain names) {seen labels : List Text} (ho : d.order = seen ++ labels)
    (hlast : labels = [] →
      ∀ label ∈ d.order.getLast?, (d.turn (some label)).ending.goesOn names = true)
    {turns : Nat} (ht : labels.length ≤ turns) :
    (d.run names turns seen.length).executed = labels.flatMap (caseBody d.cases) := by
  induction labels generalizing seen turns with
  | nil => exact h.run_ended (by simp [ho]) (hlast rfl) turns
  | cons label rest ih =>
    obtain ⟨turns,rfl⟩ := Nat.exists_eq_add_of_lt (Nat.lt_of_lt_of_le (Nat.succ_pos _) ht)
    have hl : label ∈ d.order := by simp [ho]
    have hentry : d.order[seen.length]? = some label := by simp [ho]
    rw [Nat.zero_add, List.flatMap_cons]
    simp only [run, hentry]
    split
    · rename_i hgoes
      have hrest : (d.run names turns (seen ++ [label]).length).executed =
          rest.flatMap (caseBody d.cases) := by
        refine ih (by simp [ho]) (fun hnil => ?_) (by simpa using ht)
        subst hnil
        simpa [ho] using hgoes
      rw [List.length_append, List.length_singleton] at hrest
      rw [h.turn_label hl, hrest]
    · -- only the last label may leave the loop
      rename_i hleft
      cases rest with
      | nil => rw [h.turn_label hl, List.flatMap_nil, List.append_nil]
      | cons next rest =>
        refine absurd (h.lasting label ?_) hleft
        rw [ho, List.dropLast_append_cons, List.dropLast_cons_cons]
        simp

theorem Plain.executes (h : d.Plain names) :
    d.Executes names (d.order.flatMap (caseBody d.cases)) := by
  refine ⟨d.order.length,fun _ ht => h.run_labels (List.nil_append _).symm (fun hnil => ?_) ht⟩
  simp [hnil]

end Plain

/-- More turns change nothing once the loop is left. -/
theorem run_of_left {d : Dispatch} {names : List String} {turns state : Nat}
    (h : (d.run names turns state).ending.goesOn names = false) (more : Nat) :
    d.run names (turns + more) state = d.run names turns state := by
  induction turns generalizing state with
  | zero => cases h
  | succ turns ih =>
    rw [Nat.succ_add]
    simp only [run] at h ⊢
    split at h
    · rename_i hgoes
      rw [if_pos hgoes, if_pos hgoes, ih h]
    · rename_i hgoes
      rw [if_neg hgoes, if_neg hgoes]

theorem not_executes_of_left {d : Dispatch} {names : List String} {turns : Nat} {ss : List Node}
    (h : (d.run names turns 0).ending.goesOn names = false)
    (hn : (d.run names turns 0).executed.length ≠ ss.length) : ¬d.Executes names ss := by
  rintro ⟨enough,he⟩
  have hss := he (turns + enough) (Nat.le_add_left ..)
  rw [run_of_left h] at hss
  exact hn (congrArg List.length hss)

/-- A loop that gives up statements has a block with a switch in it, and an order. -/
theorem unflatten?_parts {earlier ss : List Node} {loop : Node} (h : unflatten? earlier loop = some ss) :
    ∃ body switch order, loop.child? .body = some body ∧ body.label = .blockStatement ∧
      (body.row .body).find? isSwitch = some switch ∧ switch.label = .switchStatement ∧
      of? earlier loop = some (ofBody order (body.row .body) switch) ∧
      ss = order.flatMap (caseBody (switch.row .cases)) := by
  obtain ⟨body,switch,d,order,hbody,hblock,hswitch,hd,horder,hss,-⟩ := unflatten?_eq_some.mp h
  have hlabel : switch.label = .switchStatement := by simpa using List.find?_some hswitch
  change (body.row .body).find? isSwitch = some switch at hswitch
  refine ⟨body,switch,order,hbody,hblock,hswitch,hlabel,?_,hss.symm⟩
  rw [of?, hbody, Option.bind_eq_bind, Option.bind_some, hswitch, Option.bind_eq_bind,
    Option.bind_some, hd, Option.bind_some, horder]
  rfl

theorem of?_of_unflatten? {earlier ss : List Node} {loop : Node}
    (h : unflatten? earlier loop = some ss) :
    ∃ d, of? earlier loop = some d ∧ ss = d.order.flatMap (caseBody d.cases) := by
  obtain ⟨body,switch,order,-,-,-,-,hof,hss⟩ := unflatten?_parts h
  exact ⟨_,hof,hss⟩

end Dispatch

/-- The statements that a loop gives up stand inside one of its parts. -/
theorem unflatten?_below {earlier ss : List Node} {loop : Node}
    (h : unflatten? earlier loop = some ss) :
    ∀ s ∈ ss, ∃ c ∈ loop.subtrees, ∃ q, c.2.at? q = some s := by
  obtain ⟨body,switch,order,hbody,-,hswitch,-,-,rfl⟩ := Dispatch.unflatten?_parts h
  obtain ⟨b,hb,rfl⟩ := List.mem_map.mp (Node.mem_row_of_child? hbody)
  obtain ⟨j,hj⟩ := Node.exists_at?_of_row (List.mem_of_find?_eq_some hswitch)
  intro s hs
  obtain ⟨c,hc,hs⟩ := exists_case hs
  obtain ⟨k,hk⟩ := Node.exists_at?_of_row hc
  obtain ⟨t,ht⟩ := Node.exists_at?_of_row hs
  refine ⟨b,(List.mem_filter.mp hb).1,[j] ++ ([k] ++ [t]),?_⟩
  rw [Node.at?_append, hj, Option.bind_some, Node.at?_append, hk, Option.bind_some, ht]

/-- The statements that a loop gives up stand inside it. -/
theorem unflatten?_inside {earlier ss : List Node} {loop : Node}
    (h : unflatten? earlier loop = some ss) : ∀ s ∈ ss, ∃ q, loop.at? q = some s := by
  intro s hs
  obtain ⟨c,hc,q,hq⟩ := unflatten?_below h s hs
  obtain ⟨i,hi⟩ := Node.exists_at?_of_mem hc
  exact ⟨[i] ++ q,by rw [Node.at?_append, hi, Option.bind_some, hq]⟩

/-- What is decided about a loop whose subtrees were visited, however often they are met. -/
theorem finished_executes {ctx : Context} {loop : Node} {ss : List Node}
    (h : (flatteningRule.finish ctx loop).replaced = some (.statements ss)) :
    ∃ d, Dispatch.of? ctx.earlier loop = some d ∧ ∀ names, d.Plain names → d.Executes names ss := by
  obtain ⟨hkeep,-⟩ | ⟨ss',-,hss,hgives⟩ := flatteningRule_cases ctx loop
  · rw [hkeep] at h
    cases h
  · rw [hgives] at h
    cases h
    obtain ⟨d,hd,rfl⟩ := Dispatch.of?_of_unflatten? hss
    exact ⟨d,hd,fun _ => Dispatch.Plain.executes⟩

/-- A loop in the form that flattening gives it runs the statements that a visit puts in its place,
whatever labels it has. The loop is taken as it is once its subtrees were visited. -/
theorem unflattened_executes {ctx : Context} {n : Node} {ss : List Node}
    (h : (flatteningRule.visit ctx n).replaced = some (.statements ss)) :
    ∃ d, Dispatch.of? ctx.earlier (flatteningRule.visit ctx n).kept = some d ∧
      ∀ names, d.Plain names → d.Executes names ss := by
  obtain ⟨m,l,cs⟩ := n
  have hvisit : flatteningRule.early (.marked m l cs) = none := rfl
  simp only [Rule.visit, hvisit, flatteningRule_finish_kept] at h ⊢
  exact finished_executes h

/-! ### Single loops -/

namespace Dispatch

/-- The statement `name();`. -/
def runs (name : String) : Node :=
  .mk (.expressionStatement none none) [(.expression, .call (.identifier name) [])]

def leaves : Node := .mk .breakStatement []

def resumes : Node := .mk .continueStatement []

def leavesAt (name : String) : Node := .mk .breakStatement [(.label, .identifier name)]

def resumesAt (name : String) : Node := .mk .continueStatement [(.label, .identifier name)]

def caseOf (test : Option Node) (ss : List Node) : Node :=
  .mk .switchCase (test.toList.map (fun t => (.test, t)) ++ ss.map fun s => (.consequent, s))

def labelled (label : String) : List Node → Node := caseOf (some (.ofText (Text.ofString label)))

/-- An endless loop over a switch on `'<labels>'.split('|')[i++]`. -/
def dispatching (labels : Text) (before cases after : List Node) : Node :=
  let split : Node := .mk (.memberExpression false)
    [(.object, .ofText labels), (.property, .identifier "split")]
  let next : Node := .mk (.updateExpression "++" false) [(.argument, .identifier "i")]
  let discriminant : Node := .mk (.memberExpression true)
    [(.object, .call split [.ofText (Text.ofString "|")]), (.property, next)]
  let switch : Node := .mk .switchStatement
    ((.discriminant, discriminant) :: cases.map fun c => (.cases, c))
  .mk .whileStatement
    [(.test, .ofBool true), (.body, .block (before ++ [switch] ++ after))]

/-- Three cases out of order, the last of which ends the loop, so that no turn comes to the default.
One names the label of the loop. -/
def shuffledCases : List Node :=
  [labelled "0" [runs "b", resumes], labelled "1" [runs "c", leaves],
   labelled "2" [runs "a", runs "a", resumesAt "outer"], caseOf none [runs "d", leaves]]

def shuffled : Node := dispatching (Text.ofString "2|0|1") [] shuffledCases [leaves]

private theorem shuffled_plain : Plain ⟨[[50], [48], [49]],[],shuffledCases,[leaves]⟩ ["outer"] where
  first := rfl
  alone := rfl
  spelled := by
    intro label hl c hc t ht hunits
    simp only [List.mem_cons, List.not_mem_nil, or_false, shuffledCases] at hl hc
    rcases hc with rfl | rfl | rfl | rfl <;> cases ht <;>
      rcases hl with rfl | rfl | rfl <;> first | rfl | exact absurd hunits (by decide)
  single := by decide
  own := by
    intro c later hsuffix _
    simp only [shuffledCases, List.suffix_cons_iff, List.cons.injEq, List.suffix_nil] at hsuffix
    rcases hsuffix with ⟨rfl,rfl⟩ | ⟨rfl,rfl⟩ | ⟨rfl,rfl⟩ | ⟨rfl,rfl⟩ | h
    · rfl
    · rfl
    · rfl
    · rfl
    · cases h
  silent := by decide
  lasting := by decide

end Dispatch

theorem unflattened_executes_shuffled :
    ∃ d ss, Dispatch.of? [] (flatteningRule.visit Rule.top Dispatch.shuffled).kept = some d ∧
      (flatteningRule.visit Rule.top Dispatch.shuffled).replaced = some (.statements ss) ∧
      ss.length = 4 ∧ d.Executes ["outer"] ss := by
  have h : (flatteningRule.visit Rule.top Dispatch.shuffled).replaced = some (.statements
      [Dispatch.runs "a", Dispatch.runs "a", Dispatch.runs "b", Dispatch.runs "c"]) := by rfl
  obtain ⟨d,hd,hexecutes⟩ := unflattened_executes h
  have hof : Dispatch.of? [] (flatteningRule.visit Rule.top Dispatch.shuffled).kept =
      some ⟨[[50], [48], [49]],[],Dispatch.shuffledCases,[Dispatch.leaves]⟩ := by rfl
  obtain rfl := Option.some.inj (hof.symm.trans hd)
  exact ⟨_,_,hof,h,rfl,hexecutes ["outer"] Dispatch.shuffled_plain⟩

namespace Dispatch

/-- A loop with some labels that is replaced by statements which it does not run. -/
def Misread (names : List String) (loop : Node) : Prop :=
  ∃ d ss, of? [] (flatteningRule.visit Rule.top loop).kept = some d ∧
    (flatteningRule.visit Rule.top loop).replaced = some (.statements ss) ∧ ¬d.Executes names ss

/-- Whether a loop is left after at most a number of turns with more or fewer statements run than
there are in its place. -/
def differs (names : List String) (turns : Nat) (loop : Node) : Bool :=
  let v := flatteningRule.visit Rule.top loop
  match of? [] v.kept, v.replaced with
  | some d, some (.statements ss) =>
    !(d.run names turns 0).ending.goesOn names && (d.run names turns 0).executed.length != ss.length
  | _, _ => false

theorem misread_of_differs {names : List String} {turns : Nat} {loop : Node}
    (h : differs names turns loop = true) : Misread names loop := by
  simp only [differs] at h
  split at h
  · rename_i d ss hd hss
    simp only [Bool.and_eq_true, Bool.not_eq_true', bne_iff_ne] at h
    exact ⟨d,ss,hd,hss,not_executes_of_left h.1 h.2⟩
  · cases h

/-- A case that runs into the next. -/
def fallingThrough : Node :=
  dispatching (Text.ofString "0|1") [] [labelled "0" [runs "a"], labelled "1" [runs "b", resumes]] [leaves]

/-- A statement that no run comes to. -/
def behindJump : Node := dispatching (Text.ofString "0") [] [labelled "0" [resumes, runs "a"]] [leaves]

def beforeSwitch : Node :=
  dispatching (Text.ofString "0") [runs "a"] [labelled "0" [runs "b", resumes]] [leaves]

def behindSwitch : Node :=
  dispatching (Text.ofString "0") [] [labelled "0" [runs "a", leaves]] [runs "b", leaves]

/-- Two cases for one label, of which the first is run and the second is kept. -/
def twoCases : Node :=
  dispatching (Text.ofString "0") [] [labelled "0" [runs "a", resumes], labelled "0" [runs "b", runs "c", resumes]]
    [leaves]

/-- A label that is a number, which no string equals. -/
def numberLabel : Node :=
  dispatching (Text.ofString "0") [] [caseOf (some (.ofMagnitude (.int 0))) [runs "a", resumes]] [leaves]

/-- One string spelled as two code points and as one. -/
def otherSpelling : Node :=
  dispatching [0x1F600, 124, 49] []
    [caseOf (some (.ofText [0xD83D, 0xDE00])) [runs "a", resumes], labelled "1" [runs "b", resumes]]
    [leaves]

def defaultBody : Node :=
  dispatching (Text.ofString "0") [] [labelled "0" [runs "a", resumes], caseOf none [runs "b"]] [leaves]

/-- A case that ends the loop before its order ends. -/
def leftEarly : Node :=
  dispatching (Text.ofString "0|1") [] [labelled "0" [runs "a", leaves], labelled "1" [runs "b", leaves]] [leaves]

/-- `outer: while (true) { switch ('0|1'.split('|')[i++]) { case '0': a(); break outer; case '1': b();
continue; } break; }` -/
def leftAtLabel : Node :=
  dispatching (Text.ofString "0|1") [] [labelled "0" [runs "a", leavesAt "outer"], labelled "1" [runs "b", resumes]]
    [leaves]

/-- A case that goes on with the loop around, which has the label. -/
def resumedAround : Node :=
  dispatching (Text.ofString "0|1") [] [labelled "0" [runs "a", resumesAt "around"], labelled "1" [runs "b", resumes]]
    [leaves]

/-- Each part of the form is needed: without it the loop is replaced by something else than it
runs. -/
theorem misread_forms :
    Misread [] fallingThrough ∧ Misread [] behindJump ∧ Misread [] beforeSwitch ∧
      Misread [] behindSwitch ∧ Misread [] twoCases ∧ Misread [] numberLabel ∧
      Misread [] otherSpelling ∧ Misread [] defaultBody ∧ Misread [] leftEarly ∧
      Misread ["outer"] leftAtLabel ∧ Misread ["outer"] resumedAround := by
  refine ⟨?_,?_,?_,?_,?_,?_,?_,?_,?_,?_,?_⟩
  all_goals exact misread_of_differs (by decide +kernel : differs _ 3 _ = true)

end Dispatch

end Simplify
end Unravel
