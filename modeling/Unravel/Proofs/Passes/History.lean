import Mathlib.Data.List.Nodup
import Unravel.Passes

/-! What a pass loop calls. Tools and simplifications that note each use lead to the same result,
and their notes are passes, one after the other. -/

namespace Unravel.Passes
variable {σ : Type}

/-- A use of a tool or of a simplification, with the answer to it. -/
inductive Call (σ : Type) where
  | parse (code : Text) (answer : Except Text Node)
  | run (matcher : Matcher σ) (tree : Node) (answer : Except Text (Node × Nat))
  | print (tree : Node) (answer : Except Text Text)

def Call.isParse : Call σ → Bool
  | .parse .. => true
  | _ => false

/-- A function that notes its uses. -/
def noting {α β : Type} (call : α → β → Call σ) (f : α → StateM σ β) (a : α) :
    StateM (σ × List (Call σ)) β :=
  fun s => let (b, t) := f a s.1; (b, (t, s.2 ++ [call a b]))

end Passes

open Passes (noting)

def Matcher.noting {σ : Type} (m : Matcher σ) : Matcher (σ × List (Passes.Call σ)) :=
  { setting := m.setting, label := m.label, report := m.report
    run := Passes.noting (.run m) m.run }

def Tools.noting {σ : Type} (tools : Tools σ) : Tools (σ × List (Passes.Call σ)) :=
  { parse := Passes.noting .parse tools.parse, print := Passes.noting .print tools.print }

namespace Passes
variable {σ : Type}

def Progress.noting (p : Progress σ) : Progress (σ × List (Call σ)) :=
  { p with matchers := p.matchers.map Matcher.noting }

@[simp]
theorem Progress.noting_code (p : Progress σ) : p.noting.code = p.code := rfl

@[simp]
theorem Progress.noting_matchers (p : Progress σ) :
    p.noting.matchers = p.matchers.map Matcher.noting := rfl

/-! ### Passes -/

/-- A simplification at work on a tree. -/
structure Run (σ : Type) where
  matcher : Matcher σ
  tree : Node
  answer : Except Text (Node × Nat)

/-- What was called in one pass. -/
structure Pass (σ : Type) where
  source : Text
  parsed : Except Text Node
  runs : List (Run σ) := []
  printed : Option (Node × Except Text Text) := none

def Run.call (r : Run σ) : Call σ := .run r.matcher r.tree r.answer

/-- The setting of a simplification that failed. -/
def Run.failed? (r : Run σ) : Option Setting :=
  match r.answer with
  | .error _ => some r.matcher.setting
  | .ok _ => none

def Run.count? (r : Run σ) : Option (Setting × Nat) :=
  match r.answer with
  | .error _ => none
  | .ok a => some (r.matcher.setting, a.2)

namespace Pass

def calls (p : Pass σ) : List (Call σ) :=
  .parse p.source p.parsed :: p.runs.map Run.call ++ p.printed.toList.map fun e => .print e.1 e.2

/-- The code that was printed. -/
def written? (p : Pass σ) : Option Text := p.printed.bind fun e => e.2.toOption

def failed (p : Pass σ) : List Setting := p.runs.filterMap Run.failed?

def counts (p : Pass σ) : Counts := p.runs.filterMap Run.count?

end Pass

/-- Simplifications run in order from a tree on, each on what the one before it made. The last tree
is missing if one of them failed, and then no other follows. -/
inductive InOrder : List (Matcher σ) → Node → List (Run σ) → Option Node → Prop
  | all (tree : Node) : InOrder [] tree [] (some tree)
  | next {m : Matcher σ} {rest : List (Matcher σ)} {tree tree' : Node} {n : Nat}
      {runs : List (Run σ)} {last : Option Node} (h : InOrder rest tree' runs last) :
      InOrder (m :: rest) tree (⟨m,tree,.ok (tree', n)⟩ :: runs) last
  | failed {m : Matcher σ} {rest : List (Matcher σ)} {tree : Node} {e : Text} :
      InOrder (m :: rest) tree [⟨m,tree,.error e⟩] none

/-- What a pass over a code may be. Only a tree that all simplifications in use have passed, and
that some of them changed, is printed. -/
inductive Pass.From (code : Text) (active : List (Matcher σ)) : Pass σ → Prop
  | unparsed (e : Text) : From code active { source := code, parsed := .error e }
  | failed {tree : Node} {runs : List (Run σ)} (h : InOrder active tree runs none) :
      From code active { source := code, parsed := .ok tree, runs := runs }
  | idle {tree last : Node} {runs : List (Run σ)} (h : InOrder active tree runs (some last))
      (hz : ∀ c ∈ runs.filterMap Run.count?, c.2 = 0) :
      From code active { source := code, parsed := .ok tree, runs := runs }
  | printed {tree last : Node} {runs : List (Run σ)} (h : InOrder active tree runs (some last))
      (answer : Except Text Text) :
      From code active
        { source := code, parsed := .ok tree, runs := runs, printed := some (last, answer) }

/-- The code that passes leave: what was printed last. -/
def codeAfter (code : Text) (passes : List (Pass σ)) : Text :=
  passes.foldl (fun code p => p.written?.getD code) code

/-- The settings of the simplifications that failed in some pass. -/
def dropped (passes : List (Pass σ)) : List Setting := passes.flatMap Pass.failed

/-- The simplifications that did not fail in any pass. -/
def remaining (active : List (Matcher σ)) (passes : List (Pass σ)) : List (Matcher σ) :=
  active.filter fun m => m.setting ∉ dropped passes

/-- What was counted for a setting in the passes that printed their tree. -/
def total (s : Setting) (passes : List (Pass σ)) : Nat :=
  Counts.of ((passes.filter fun p => p.written?.isSome).flatMap Pass.counts) s

theorem Counts.of_append (a b : Counts) (s : Setting) : Counts.of (a ++ b) s = a.of s + b.of s := by
  have hfrom (c : List (Setting × Nat)) (n : Nat) :
      c.foldl (fun total c => total + c.2) n = n + c.foldl (fun total c => total + c.2) 0 := by
    induction c generalizing n with
    | nil => rfl
    | cons e c ih => rw [List.foldl_cons, List.foldl_cons, ih, ih (0 + e.2), Nat.zero_add, Nat.add_assoc]
  rw [Counts.of, List.filter_append, List.foldl_append, hfrom]
  rfl

/-- Passes that begin with a code and some simplifications. Each starts from the code that the
earlier ones left, and with the simplifications that did not fail in them. -/
def Follow (code : Text) (active : List (Matcher σ)) (passes : List (Pass σ)) : Prop :=
  ∀ earlier pass later, passes = earlier ++ pass :: later →
    pass.From (codeAfter code earlier) (remaining active earlier)

section Follow
variable {code : Text} {active : List (Matcher σ)} {pass : Pass σ} {passes : List (Pass σ)}

theorem remaining_nil : remaining active ([] : List (Pass σ)) = active := by
  simp [remaining, dropped]

theorem remaining_cons : remaining active (pass :: passes) = remaining (remaining active [pass]) passes := by
  simp only [remaining, dropped, List.flatMap_cons, List.flatMap_nil, List.append_nil,
    List.filter_filter, List.mem_append, not_or]
  refine List.filter_congr fun m _ => ?_
  simp [Bool.and_comm]

theorem Follow.nil : Follow code active ([] : List (Pass σ)) := by
  intro earlier pass later h
  simp at h

theorem Follow.cons (h : pass.From code active)
    (hs : Follow (pass.written?.getD code) (remaining active [pass]) passes) :
    Follow code active (pass :: passes) := by
  rintro (_ | ⟨first,earlier⟩) p later he
  · obtain ⟨rfl,-⟩ := List.cons.inj he
    rw [remaining_nil]
    exact h
  · obtain ⟨rfl,hrest⟩ := List.cons.inj he
    rw [remaining_cons]
    exact hs earlier p later hrest

theorem total_cons (s : Setting) :
    total s (pass :: passes) = (if pass.written?.isSome then pass.counts.of s else 0) + total s passes := by
  rw [total, List.filter_cons]
  split
  · rw [List.flatMap_cons, Counts.of_append]
    rfl
  · exact (Nat.zero_add _).symm

end Follow

/-! ### The run of one pass -/

def Outcome.noting : Outcome σ → Outcome (σ × List (Call σ))
  | .done tree counts => .done tree counts
  | .failed m others e => .failed m.noting (others.map Matcher.noting) e

/-- What simplifications come to that make the given runs, after some that have passed. A failed one
is not among those that are kept. -/
inductive Comes (before ms : List (Matcher σ)) (tree : Node) (counts : Counts)
    (runs : List (Run σ)) : Outcome σ → Prop
  | done {last : Node} (h : InOrder ms tree runs (some last)) :
      Comes before ms tree counts runs (.done last (counts ++ runs.filterMap Run.count?))
  | failed {earlier later : List (Matcher σ)} {m : Matcher σ} {e : Text}
      (h : InOrder ms tree runs none) (hf : runs.filterMap Run.failed? = [m.setting])
      (hm : ms = earlier ++ m :: later) :
      Comes before ms tree counts runs (.failed m (before ++ (earlier ++ later)) e)

theorem Comes.next {before rest : List (Matcher σ)} {m : Matcher σ} {tree tree' : Node} {n : Nat}
    {counts : Counts} {runs : List (Run σ)} {out : Outcome σ}
    (h : Comes (before ++ [m]) rest tree' (counts ++ [(m.setting, n)]) runs out) :
    Comes before (m :: rest) tree counts (⟨m,tree,.ok (tree', n)⟩ :: runs) out := by
  cases h with
  | @done last h =>
    have hdone : Comes before (m :: rest) tree counts _ _ := .done (h.next (m := m) (n := n))
    simpa [Run.count?] using hdone
  | @failed earlier later m' e h hf hm =>
    have hfailed : Comes before (m :: rest) tree counts _ (.failed m' (before ++ (m :: earlier ++ later)) e) :=
      .failed (h.next (m := m) (n := n)) hf (by rw [hm, List.cons_append])
    simpa using hfailed

private theorem run_bind {α β : Type} {x : StateM σ α} {f : α → StateM σ β} {s t : σ} {a : α}
    (h : x.run s = (a, t)) : (x >>= f).run s = (f a).run t := by
  rw [StateT.run_bind, h]
  rfl

private theorem noting_run {α β : Type} {call : α → β → Call σ} {f : α → StateM σ β} {a : α} {b : β}
    {s t : σ} (log : List (Call σ)) (h : (f a).run s = (b, t)) :
    (noting call f a).run (s, log) = (b, (t, log ++ [call a b])) := by
  change (((f a).run s).1, (((f a).run s).2, log ++ [call a ((f a).run s).1])) = _
  rw [h]

theorem runAll_cons (before rest : List (Matcher σ)) (m : Matcher σ) (tree : Node)
    (counts : Counts) (s : σ) :
    (runAll before (m :: rest) tree counts).run s =
      match (m.run tree).run s with
      | (.error e, t) => (.failed m (before ++ rest) e, t)
      | (.ok (tree', n), t) =>
        (runAll (before ++ [m]) rest tree' (counts ++ [(m.setting, n)])).run t := by
  rw [runAll]
  rcases h : (m.run tree).run s with ⟨e | ⟨tree',n⟩,t⟩
  · rw [run_bind h]
    rfl
  · rw [run_bind h]

/-- Simplifications that note their runs come to the same, and note runs that lead there. -/
private theorem runAll_noting {before ms : List (Matcher σ)} {tree : Node} {counts : Counts} {s t : σ}
    {out : Outcome σ} (log : List (Call σ)) (h : (runAll before ms tree counts).run s = (out, t)) :
    ∃ runs, (runAll (before.map Matcher.noting) (ms.map Matcher.noting) tree counts).run (s, log) =
        (out.noting, (t, log ++ runs.map Run.call)) ∧ Comes before ms tree counts runs out := by
  induction ms generalizing before tree counts s log with
  | nil =>
    obtain ⟨rfl,rfl⟩ := Prod.mk.inj h
    have hdone : Comes before [] tree counts _ _ := .done (.all tree)
    refine ⟨[],?_,by simpa using hdone⟩
    simp only [List.map_nil, List.append_nil]
    rfl
  | cons m rest ih =>
    rw [runAll_cons] at h
    rcases hm : (m.run tree).run s with ⟨e | ⟨tree',n⟩,u⟩
    · obtain ⟨rfl,rfl⟩ := Prod.mk.inj (hm ▸ h)
      refine ⟨[⟨m,tree,.error e⟩],?_,.failed .failed rfl (List.nil_append _).symm⟩
      have hrun : (m.noting.run tree).run (s, log) = _ := noting_run log hm
      rw [List.map_cons, runAll_cons, hrun]
      simp [Outcome.noting, Run.call]
    · rw [hm] at h
      have hrun : (m.noting.run tree).run (s, log) = _ := noting_run log hm
      obtain ⟨runs,he,hr⟩ := ih (log ++ [.run m tree (.ok (tree', n))]) h
      refine ⟨⟨m,tree,.ok (tree', n)⟩ :: runs,?_,hr.next⟩
      rw [List.map_cons, runAll_cons, hrun]
      rw [List.map_append, List.append_assoc] at he
      exact he

theorem InOrder.failed_eq {ms : List (Matcher σ)} {tree last : Node} {runs : List (Run σ)}
    (h : InOrder ms tree runs (some last)) : runs.filterMap Run.failed? = [] := by
  generalize ho : some last = o at h
  induction h with
  | all => rfl
  | next h ih => exact ih ho
  | failed => cases ho

/-- A failed simplification is all that a pass takes from those in use. -/
theorem remaining_failed {earlier later : List (Matcher σ)} {m : Matcher σ} {pass : Pass σ}
    (hn : ((earlier ++ m :: later).map Matcher.setting).Nodup)
    (hf : pass.runs.filterMap Run.failed? = [m.setting]) :
    remaining (earlier ++ m :: later) [pass] = earlier ++ later := by
  have hne : ∀ x ∈ earlier ++ later, x.setting ≠ m.setting := by
    rw [List.map_append, List.map_cons, List.nodup_middle, List.nodup_cons, ← List.map_append] at hn
    intro x hx he
    exact hn.1 (he ▸ List.mem_map_of_mem hx)
  simp only [remaining, dropped, List.flatMap_cons, List.flatMap_nil, List.append_nil, Pass.failed, hf,
    List.mem_singleton]
  rw [List.filter_append, List.filter_cons_of_neg (by simp), ← List.filter_append]
  exact List.filter_eq_self.mpr fun x hx => by simpa using hne x hx

theorem remaining_passed {active : List (Matcher σ)} {pass : Pass σ}
    (hf : pass.runs.filterMap Run.failed? = []) : remaining active [pass] = active := by
  simp [remaining, dropped, Pass.failed, hf]

/-- What the outcome of the simplifications of a pass comes to, and whether another pass follows. -/
def settle (tools : Tools σ) (k : Nat) (p : Progress σ) : Outcome σ → StateM σ (Progress σ × Bool)
  | .failed m others e => return ({ p.fail m.label k e with matchers := others }, !others.isEmpty)
  | .done tree counts => do
    if counts.all fun c => c.2 = 0 then return (p, false)
    match ← tools.print tree with
    | .error e => return (p.fail "Generation" k e, false)
    | .ok code => return ({ p with code := code, counts := p.counts ++ counts }, code ≠ p.code)

/-- One pass: what it comes to, and whether another follows. -/
def step (tools : Tools σ) (k : Nat) (p : Progress σ) : StateM σ (Progress σ × Bool) := do
  match ← tools.parse p.code with
  | .error e => return (p.fail "Parse" k e, false)
  | .ok tree => settle tools k p (← runAll [] p.matchers tree [])

/-- What a pass makes of the code, the simplifications in use and the work counted. -/
structure Pass.Leads (pass : Pass σ) (p out : Progress σ) : Prop where
  legal : pass.From p.code p.matchers
  code_eq : out.code = pass.written?.getD p.code
  matchers_eq : out.matchers = remaining p.matchers [pass]
  counts_eq : ∀ x, out.counts.of x = p.counts.of x + total x [pass]

section Step
variable {tools : Tools σ} {k : Nat} {p out : Progress σ} {s t : σ} {more : Bool}

private theorem settle_noting {tree : Node} {runs : List (Run σ)} {outcome : Outcome σ}
    (log : List (Call σ)) (hn : (p.matchers.map Matcher.setting).Nodup)
    (hc : Comes [] p.matchers tree [] runs outcome)
    (h : (settle tools k p outcome).run s = ((out, more), t)) :
    ∃ printed, (settle tools.noting k p.noting outcome.noting).run (s, log) =
        ((out.noting, more), (t, log ++ printed.toList.map fun e => .print e.1 e.2)) ∧
      Pass.Leads { source := p.code, parsed := .ok tree, runs := runs, printed := printed } p out := by
  cases hc with
  | @failed earlier later m e hin hf hm =>
    obtain ⟨⟨rfl,rfl⟩,rfl⟩ := Prod.mk.inj h |>.imp_left Prod.mk.inj
    refine ⟨none,?_,.failed hin,rfl,?_,fun _ => rfl⟩
    · simp only [settle, Outcome.noting, List.isEmpty_map, Option.toList_none, List.map_nil,
        List.append_nil]
      rfl
    · simp only [hm] at hn ⊢
      exact (remaining_failed hn (by exact hf)).symm
  | @done last hin =>
    have hpassed := hin.failed_eq
    rw [settle] at h
    simp only [Outcome.noting, settle, List.nil_append] at h ⊢
    split at h
    · rename_i hz
      obtain ⟨⟨rfl,rfl⟩,rfl⟩ := Prod.mk.inj h |>.imp_left Prod.mk.inj
      refine ⟨none,?_,.idle hin fun c hc => of_decide_eq_true (List.all_eq_true.mp hz c hc),rfl,
        (remaining_passed (by exact hpassed)).symm,fun _ => rfl⟩
      rw [if_pos hz, Option.toList_none, List.map_nil, List.append_nil]
      rfl
    rename_i hz
    rcases hp : (tools.print last).run s with ⟨answer,u⟩
    have hnoted : (tools.noting.print last).run (s, log) = _ := noting_run log hp
    rw [run_bind hp] at h
    rw [if_neg hz]
    refine ⟨some (last, answer),?_,.printed hin answer,?_,?_,?_⟩
    · rw [run_bind hnoted]
      cases answer <;> obtain ⟨⟨rfl,rfl⟩,rfl⟩ := Prod.mk.inj h |>.imp_left Prod.mk.inj <;> rfl
    all_goals cases answer <;> obtain ⟨⟨rfl,-⟩,-⟩ := Prod.mk.inj h |>.imp_left Prod.mk.inj
    · rfl
    · rfl
    · exact (remaining_passed (by exact hpassed)).symm
    · exact (remaining_passed (by exact hpassed)).symm
    · exact fun _ => rfl
    · intro x
      refine (Counts.of_append ..).trans ?_
      simp [total, Pass.written?, Except.toOption, Pass.counts]

/-- Tools that note their uses lead a pass to the same result, and note what was called in it. -/
theorem step_noting (log : List (Call σ)) (hn : (p.matchers.map Matcher.setting).Nodup)
    (h : (step tools k p).run s = ((out, more), t)) :
    ∃ pass : Pass σ, (step tools.noting k p.noting).run (s, log) =
        ((out.noting, more), (t, log ++ pass.calls)) ∧ pass.Leads p out := by
  rcases hparse : (tools.parse p.code).run s with ⟨e | tree,u⟩
  · have hnoted : (tools.noting.parse p.noting.code).run (s, log) = _ := noting_run log hparse
    rw [step, run_bind hparse] at h
    obtain ⟨⟨rfl,rfl⟩,rfl⟩ := Prod.mk.inj h |>.imp_left Prod.mk.inj
    rw [step, run_bind hnoted]
    exact ⟨{ source := p.code, parsed := .error e },rfl,.unparsed e,rfl,(remaining_passed rfl).symm,
      fun _ => rfl⟩
  have hnoted : (tools.noting.parse p.noting.code).run (s, log) = _ := noting_run log hparse
  rcases hruns : (runAll [] p.matchers tree []).run u with ⟨outcome,v⟩
  obtain ⟨runs,hrun,hcomes⟩ := runAll_noting (log ++ [.parse p.noting.code (.ok tree)]) hruns
  rw [step, run_bind hparse] at h
  change (runAll [] p.matchers tree [] >>= settle tools k p).run u = _ at h
  rw [run_bind hruns] at h
  obtain ⟨printed,hprinted,hleads⟩ := settle_noting
    (log ++ [.parse p.noting.code (.ok tree)] ++ runs.map Run.call) hn hcomes h
  refine ⟨_,?_,hleads⟩
  rw [step, run_bind hnoted]
  change (runAll [] (p.matchers.map Matcher.noting) tree [] >>= settle tools.noting k p.noting).run _ = _
  rw [List.map_nil] at hrun
  rw [run_bind hrun, hprinted]
  simp [Pass.calls]

end Step

/-! ### The run of the loop -/

theorem loop_succ (tools : Tools σ) (left k : Nat) (p : Progress σ) :
    loop tools (left + 1) k p = (do
      let (p, more) ← step tools k p
      if more then loop tools left (k + 1) p else return p) := by
  rw [loop, step, bind_assoc]
  refine bind_congr fun answer => ?_
  cases answer with
  | error e => simp
  | ok tree =>
    dsimp only
    rw [bind_assoc]
    refine bind_congr fun outcome => ?_
    cases outcome with
    | failed m others e =>
      rw [settle, pure_bind]
      cases others <;> rfl
    | done last counts =>
      dsimp only [settle]
      by_cases hz : counts.all fun c => c.2 = 0
      · rw [if_pos hz, if_pos hz, pure_bind]
        rfl
      rw [if_neg hz, if_neg hz, bind_assoc]
      refine bind_congr fun answer => ?_
      cases answer with
      | error e => rfl
      | ok code =>
        rw [pure_bind]
        by_cases hc : code = p.code
        · subst hc
          simp
        · simp [hc]

section Loop
variable {tools : Tools σ} {left k : Nat} {p out : Progress σ} {s t : σ}

/-- Tools that note their uses lead the loop to the same result, and note the passes it makes. -/
theorem loop_noting (log : List (Call σ)) (hn : (p.matchers.map Matcher.setting).Nodup)
    (h : (loop tools left k p).run s = (out, t)) :
    ∃ passes, (loop tools.noting left k p.noting).run (s, log) =
        (out.noting, (t, log ++ passes.flatMap Pass.calls)) ∧
      passes.length ≤ left ∧ Follow p.code p.matchers passes ∧
      out.code = codeAfter p.code passes ∧
      ∀ x, out.counts.of x = p.counts.of x + total x passes := by
  induction left generalizing k p s log with
  | zero =>
    obtain ⟨rfl,rfl⟩ := Prod.mk.inj h
    refine ⟨[],?_,Nat.le_refl _,.nil,rfl,fun _ => rfl⟩
    simp only [List.flatMap_nil, List.append_nil]
    rfl
  | succ left ih =>
    rcases hstep : (step tools k p).run s with ⟨⟨next,more⟩,u⟩
    obtain ⟨pass,hnoted,hleads⟩ := step_noting log hn hstep
    rw [loop_succ, run_bind hstep] at h
    rw [loop_succ, run_bind hnoted]
    cases more with
    | false =>
      obtain ⟨rfl,rfl⟩ := Prod.mk.inj h
      refine ⟨[pass],?_,by simp,.cons hleads.legal .nil,hleads.code_eq,hleads.counts_eq⟩
      rw [List.flatMap_singleton]
      rfl
    | true =>
      have hn' : (next.matchers.map Matcher.setting).Nodup := by
        rw [hleads.matchers_eq]
        exact hn.sublist (List.filter_sublist.map _)
      obtain ⟨passes,hrun,hlen,hfollow,hcode,hcounts⟩ := ih (log ++ pass.calls) hn' h
      refine ⟨pass :: passes,?_,by simpa using hlen,.cons hleads.legal ?_,?_,?_⟩
      · rw [List.flatMap_cons, ← List.append_assoc]
        exact hrun
      · rw [← hleads.code_eq, ← hleads.matchers_eq]
        exact hfollow
      · rw [hcode, hleads.code_eq]
        rfl
      · intro x
        rw [hcounts, hleads.counts_eq, Nat.add_assoc, total_cons, total_cons]
        rfl

end Loop

end Passes

end Unravel
