import Mathlib.Data.List.Induction
import Mathlib.Logic.Relation
import Unravel.Deobfuscation
import Unravel.Proofs.Passes.History

/-! Failures of passes are contained: code is taken over only from a pass that went through, and a
simplification that failed is out of use. Source that cannot be read is returned unchanged. -/

namespace Unravel.Passes
variable {σ : Type} {code : Text} {active : List (Matcher σ)} {passes : List (Pass σ)}

/-! ### The passes of a history -/

theorem Follow.init {l : List (Pass σ)} {pass : Pass σ} (h : Follow code active (l ++ [pass])) :
    Follow code active l := by
  intro earlier p later he
  exact h earlier p (later ++ [pass]) (by rw [he, List.append_assoc, List.cons_append])

theorem Follow.last {l : List (Pass σ)} {pass : Pass σ} (h : Follow code active (l ++ [pass])) :
    pass.From (codeAfter code l) (remaining active l) :=
  h l pass [] rfl

theorem Pass.From.source_eq {pass : Pass σ} (h : pass.From code active) : pass.source = code := by
  cases h <;> rfl

/-- A pass that was printed ran everything in use, and nothing failed. -/
theorem Pass.From.of_written {pass : Pass σ} {code' : Text} (h : pass.From code active)
    (hw : pass.written? = some code') :
    ∃ tree last runs, InOrder active tree runs (some last) ∧
      pass = { source := code, parsed := .ok tree, runs := runs, printed := some (last, .ok code') } := by
  cases h with
  | unparsed => cases hw
  | failed => cases hw
  | idle => cases hw
  | @printed tree last runs h answer =>
    cases answer with
    | error => cases hw
    | ok text =>
      obtain rfl : text = code' := by simpa [Pass.written?, Except.toOption] using hw
      exact ⟨tree,last,runs,h,rfl⟩

theorem Pass.From.written_of_failed {pass : Pass σ} (h : pass.From code active)
    (hf : pass.failed ≠ []) : pass.written? = none := by
  cases h with
  | unparsed => rfl
  | failed => rfl
  | idle => rfl
  | printed h => exact absurd h.failed_eq hf

theorem InOrder.sublist {ms : List (Matcher σ)} {tree : Node} {runs : List (Run σ)}
    {last : Option Node} (h : InOrder ms tree runs last) : (runs.map Run.matcher).Sublist ms := by
  induction h with
  | all => exact List.nil_sublist _
  | next _ ih => exact ih.cons_cons _
  | failed => exact (List.nil_sublist _).cons_cons _

/-- Only the last run of a pass can have failed. -/
theorem InOrder.pairwise {ms : List (Matcher σ)} {tree : Node} {runs : List (Run σ)}
    {last : Option Node} (h : InOrder ms tree runs last) :
    runs.Pairwise fun r _ => r.failed? = none := by
  induction h with
  | all => exact .nil
  | next _ ih => exact .cons (fun _ _ => rfl) ih
  | failed => exact List.pairwise_singleton ..

theorem Pass.From.pairwise {pass : Pass σ} (h : pass.From code active) :
    pass.runs.Pairwise fun r _ => r.failed? = none := by
  cases h with
  | unparsed => exact .nil
  | failed h => exact h.pairwise
  | idle h => exact h.pairwise
  | printed h => exact h.pairwise

theorem Pass.From.mem_active {pass : Pass σ} {r : Run σ} (h : pass.From code active)
    (hr : r ∈ pass.runs) : r.matcher ∈ active := by
  have hsub : (pass.runs.map Run.matcher).Sublist active := by
    cases h with
    | unparsed => exact List.nil_sublist _
    | failed h => exact h.sublist
    | idle h => exact h.sublist
    | printed h => exact h.sublist
  exact hsub.subset (List.mem_map_of_mem hr)

theorem codeAfter_append (l : List (Pass σ)) (pass : Pass σ) :
    codeAfter code (l ++ [pass]) = pass.written?.getD (codeAfter code l) := by
  simp [codeAfter]

theorem total_append (x : Setting) (l : List (Pass σ)) (pass : Pass σ) :
    total x (l ++ [pass]) = total x l + if pass.written?.isSome then pass.counts.of x else 0 := by
  rw [total, List.filter_append, List.flatMap_append, Counts.of_append, List.filter_singleton]
  cases pass.written?.isSome
  · rfl
  · simp [total]

/-! ### Failing closed -/

/-- A code is made from another in one of the passes: the tree of the one went through everything
that was in use, and the other is how the last tree was printed. -/
def Builds (active : List (Matcher σ)) (passes : List (Pass σ)) (code code' : Text) : Prop :=
  ∃ earlier later tree last runs, InOrder (remaining active earlier) tree runs (some last) ∧
    passes = earlier ++
      { source := code, parsed := .ok tree, runs := runs, printed := some (last, .ok code') } :: later

/-- Where a run of some passes has come to, failures included. -/
structure FailsClosed (code : Text) (active : List (Matcher σ)) (passes : List (Pass σ))
    (out : Progress σ) : Prop where
  follow : Follow code active passes
  bounded : (passes.flatMap Pass.calls).countP Call.isParse ≤ limit
  built : Relation.ReflTransGen (Builds active passes) code out.code
  /-- What failed is not called again. -/
  out_of_use : (passes.flatMap Pass.calls).Pairwise fun c c' =>
    ∀ m tree e m' tree' answer, c = .run m tree (.error e) → c' = .run m' tree' answer →
      m'.setting ≠ m.setting
  /-- The pass of a failure leaves no trace, and the one after it starts from the same code. -/
  traceless : ∀ earlier pass later, passes = earlier ++ pass :: later → pass.failed ≠ [] →
    pass.printed = none ∧ codeAfter code (earlier ++ [pass]) = codeAfter code earlier ∧
      (∀ x, total x (earlier ++ [pass]) = total x earlier) ∧
      ∀ next ∈ later.head?, next.source = pass.source
  code_eq : out.code = codeAfter code passes
  counts_eq : ∀ x, out.counts.of x = total x passes

theorem Follow.built (h : Follow code active passes) :
    Relation.ReflTransGen (Builds active passes) code (codeAfter code passes) := by
  suffices hpre : ∀ l later, passes = l ++ later →
      Relation.ReflTransGen (Builds active passes) code (codeAfter code l) from
    hpre passes [] (List.append_nil _).symm
  intro l
  induction l using List.reverseRecOn with
  | nil => exact fun _ _ => .refl
  | append_singleton l pass ih =>
    intro later he
    rw [List.append_assoc, List.cons_append, List.nil_append] at he
    rw [codeAfter_append]
    cases hw : pass.written? with
    | none => exact ih _ he
    | some code' =>
      obtain ⟨tree,last,runs,hin,rfl⟩ := (h l pass later he).of_written hw
      exact (ih _ he).tail ⟨l,later,tree,last,runs,hin,he⟩

private theorem Follow.pairwise (h : Follow code active passes) :
    passes.Pairwise fun p q => ∀ x ∈ p.failed, ∀ r ∈ q.runs, r.matcher.setting ≠ x := by
  induction passes using List.reverseRecOn with
  | nil => exact .nil
  | append_singleton l pass ih =>
    refine List.pairwise_append.mpr ⟨ih h.init,List.pairwise_singleton ..,?_⟩
    rintro p hp q hq x hx r hr rfl
    obtain rfl := List.mem_singleton.mp hq
    have hr := (List.mem_filter.mp (h.last.mem_active hr)).2
    exact of_decide_eq_true hr (List.mem_flatMap.mpr ⟨p,hp,hx⟩)

private theorem Pass.mem_calls {pass : Pass σ} {m : Matcher σ} {tree : Node}
    {answer : Except Text (Node × Nat)} (h : .run m tree answer ∈ pass.calls) :
    ⟨m,tree,answer⟩ ∈ pass.runs := by
  have hprint : ∀ {l : List (Node × Except Text Text)},
      (.run m tree answer : Call σ) ∉ l.map fun e => .print e.1 e.2 := by simp
  simp only [Pass.calls, List.cons_append, List.mem_cons, List.mem_append, hprint, or_false,
    reduceCtorEq, false_or, List.mem_map] at h
  obtain ⟨r,hr,he⟩ := h
  obtain ⟨rfl,rfl,rfl⟩ := Call.run.inj he
  exact hr

theorem Follow.out_of_use (h : Follow code active passes) :
    (passes.flatMap Pass.calls).Pairwise fun c c' =>
      ∀ m tree e m' tree' answer, c = .run m tree (.error e) → c' = .run m' tree' answer →
        m'.setting ≠ m.setting := by
  rw [List.pairwise_flatMap]
  constructor
  · -- within a pass nothing comes after a failure
    intro pass hp
    obtain ⟨earlier,later,rfl⟩ := List.append_of_mem hp
    have hruns := (h earlier pass later rfl).pairwise
    refine .cons (fun _ _ _ _ _ _ _ _ hc => by cases hc) ?_
    refine List.pairwise_append.mpr ⟨List.pairwise_map.mpr (hruns.imp ?_),?_,?_⟩
    · rintro r r' hr m tree e m' tree' answer he -
      obtain ⟨rfl,rfl,hanswer⟩ := Call.run.inj he
      simp [Run.failed?, hanswer] at hr
    · exact List.pairwise_map.mpr (List.pairwise_of_forall fun _ _ _ _ _ _ _ _ hc => by cases hc)
    · rintro _ - c hc _ _ _ _ _ _ - rfl
      simp at hc
  · refine h.pairwise.imp ?_
    rintro p q hpq c hc c' hc' m tree e m' tree' answer rfl rfl
    exact hpq m.setting (List.mem_filterMap.mpr ⟨_,Pass.mem_calls hc,rfl⟩) _ (Pass.mem_calls hc')

theorem countP_calls (passes : List (Pass σ)) :
    (passes.flatMap Pass.calls).countP Call.isParse = passes.length := by
  have hone (pass : Pass σ) : pass.calls.countP Call.isParse = 1 := by
    simp [Pass.calls, List.countP_cons, Call.isParse, Run.call, Function.comp_def]
  induction passes with
  | nil => rfl
  | cons pass rest ih =>
    rw [List.flatMap_cons, List.countP_append, hone, ih, List.length_cons, Nat.add_comm]

theorem Follow.traceless (h : Follow code active passes) {earlier later : List (Pass σ)}
    {pass : Pass σ} (he : passes = earlier ++ pass :: later) (hf : pass.failed ≠ []) :
    pass.printed = none ∧ codeAfter code (earlier ++ [pass]) = codeAfter code earlier ∧
      (∀ x, total x (earlier ++ [pass]) = total x earlier) ∧
      ∀ next ∈ later.head?, next.source = pass.source := by
  have hfrom := h earlier pass later he
  have hw := hfrom.written_of_failed hf
  have hcode : codeAfter code (earlier ++ [pass]) = codeAfter code earlier := by
    rw [codeAfter_append, hw, Option.getD_none]
  refine ⟨?_,hcode,fun x => by simp [total_append, hw],?_⟩
  · cases hfrom with
    | unparsed => rfl
    | failed => rfl
    | idle => rfl
    | printed h => exact absurd h.failed_eq hf
  · intro next hnext
    obtain ⟨rest,rfl⟩ := List.head?_eq_some_iff.mp hnext
    have hnext := h (earlier ++ [pass]) next rest (by rw [he, List.append_assoc]; rfl)
    rw [hnext.source_eq, hcode, hfrom.source_eq]

theorem Follow.failsClosed {out : Progress σ} (h : Follow code active passes)
    (hl : passes.length ≤ limit) (hcode : out.code = codeAfter code passes)
    (hcounts : ∀ x, out.counts.of x = total x passes) : FailsClosed code active passes out where
  follow := h
  bounded := Nat.le_trans (Nat.le_of_eq (countP_calls passes)) hl
  built := hcode ▸ h.built
  out_of_use := h.out_of_use
  traceless _ _ _ := h.traceless
  code_eq := hcode
  counts_eq := hcounts

/-- The passes that a run makes, noted by its tools. -/
theorem run_noting (tools : Tools σ) {matchers : List (Matcher σ)} {o : Options} {s t : σ}
    {out : Progress σ} (hn : (matchers.map Matcher.setting).Nodup)
    (h : (run tools matchers o code).run s = (out, t)) :
    ∃ passes, (run tools.noting (matchers.map Matcher.noting) o code).run (s, []) =
        (out.noting, (t, passes.flatMap Pass.calls)) ∧
      FailsClosed code (matchers.filter fun m => o.isOn m.setting) passes out := by
  have hnoting : (matchers.map Matcher.noting).filter (fun m => o.isOn m.setting) =
      (matchers.filter fun m => o.isOn m.setting).map Matcher.noting := by
    rw [List.filter_map]
    rfl
  have hn' : ((matchers.filter fun m => o.isOn m.setting).map Matcher.setting).Nodup :=
    hn.sublist (List.filter_sublist.map _)
  rw [run] at h
  rw [run, hnoting]
  generalize matchers.filter (fun m => o.isOn m.setting) = active at h hn' ⊢
  cases active with
  | nil =>
    obtain ⟨rfl,rfl⟩ := Prod.mk.inj h
    exact ⟨[],rfl,Follow.nil.failsClosed (Nat.zero_le _) rfl fun _ => rfl⟩
  | cons m rest =>
    obtain ⟨passes,hrun,hlen,hfollow,hcode,hcounts⟩ := loop_noting [] hn' h
    refine ⟨passes,?_,hfollow.failsClosed hlen hcode fun x => ?_⟩
    · rw [List.nil_append] at hrun
      exact hrun
    · rw [hcounts]
      exact Nat.zero_add _

theorem run_unparsed {tools : Tools σ} {matchers : List (Matcher σ)} {o : Options} {s t : σ} {e : Text}
    (h : (tools.parse code).run s = (.error e, t)) :
    ((run tools matchers o code).run s).1.code = code := by
  rw [run]
  generalize matchers.filter (fun m => o.isOn m.setting) = active
  cases active with
  | nil => rfl
  | cons m rest =>
    change ((loop tools (9 + 1) 1 { code := code, matchers := m :: rest }).run s).1.code = code
    rw [loop_succ, StateT.run_bind, step, StateT.run_bind, h]
    rfl

end Passes

namespace Report

theorem foldl_record_code (messages : List Text) (r : Report) :
    (messages.foldl record r).code = r.code := by
  induction messages generalizing r with
  | nil => rfl
  | cons message rest ih =>
    rw [List.foldl_cons, ih, record]
    split <;> rfl

variable {r : Report} {e : Text}

theorem rename_unparsed (h : parsed r.code = .error e) : r.rename.code = r.code := by
  unfold rename
  rw [h]
  rfl

theorem beautify_unparsed (h : parsed r.code = .error e) : r.beautify.code = r.code := by
  unfold beautify
  rw [h]
  rfl

theorem resolveStrings_unparsed {engine : Engine} {ms : List (Matcher Unit)} {o : Options}
    (h : parsed r.code = .error e) : (r.resolveStrings (.of engine ms) o).code = r.code := by
  have hinline (rotate : Bool) : Strings.inline engine rotate r.code = .ok { code := r.code } := by
    rw [parsed] at h
    rw [Strings.inline]
    cases hp : Source.parse r.code with
    | error => rfl
    | ok => simp [hp] at h
  simp only [resolveStrings, Stages.of, hinline, if_true]

end Report

theorem deobfuscate_unparsed (engine : Engine) (ms : List (Matcher Unit)) (o : Options) {source e : Text}
    (h : parsed source = .error e) : (deobfuscate (.of engine ms) o source).code = source := by
  set first : Report := if o.isOn .unpackStringArrays
    then ({ code := source } : Report).resolveStrings (.of engine ms) o else { code := source } with hfirst
  have hcode : first.code = source := by
    rw [hfirst]
    split
    · exact Report.resolveStrings_unparsed h
    · rfl
  set second : Report := first.passed
    (((Passes.run tools ms o first.code).run ()).1.result ms) with hsecond
  have hpassed : second.code = source := by
    rw [hsecond, Report.passed, Report.foldl_record_code]
    refine (Passes.run_unparsed (t := ()) (e := e) ?_).trans hcode
    rw [hcode]
    exact congrArg (·, ()) h
  have hrenamed : (if o.isOn .renameVariables then second.rename else second).code = source := by
    split
    · exact (Report.rename_unparsed (hpassed ▸ h)).trans hpassed
    · exact hpassed
  change (if o.isOn .beautifyOutput then
      (if o.isOn .renameVariables then second.rename else second).beautify
    else if o.isOn .renameVariables then second.rename else second).code = source
  split
  · exact (Report.beautify_unparsed (hrenamed ▸ h)).trans hrenamed
  · exact hrenamed

namespace Passes

/-- Whatever the tools and the simplifications do, a run comes to where some passes lead that fail
closed, and those are what is called in it; the work it reports is that of the passes that were
printed. Source that cannot be read comes back unchanged, whatever is switched on. -/
theorem run_failsClosed {σ : Type} (tools : Tools σ) (matchers : List (Matcher σ)) (o : Options)
    (code : Text) (s : σ) (hn : (matchers.map Matcher.setting).Nodup) :
    (∃ passes out t, (run tools matchers o code).run s = (out, t) ∧
      (run tools.noting (matchers.map Matcher.noting) o code).run (s, []) =
        (out.noting, (t, passes.flatMap Pass.calls)) ∧
      FailsClosed code (matchers.filter fun m => o.isOn m.setting) passes out ∧
      (out.result matchers).transforms = matchers.filterMap fun m =>
        if total m.setting passes = 0 then none
        else some (Text.ofString (m.report (total m.setting passes)))) ∧
    ∀ engine ms o source e, parsed source = .error e →
      (deobfuscate (.of engine ms) o source).code = source := by
  refine ⟨?_,fun engine ms o _ _ => deobfuscate_unparsed engine ms o⟩
  rcases hrun : (run tools matchers o code).run s with ⟨out,t⟩
  obtain ⟨passes,hnoted,hclosed⟩ := run_noting tools hn hrun
  refine ⟨passes,out,t,rfl,hnoted,hclosed,?_⟩
  refine List.filterMap_congr fun m _ => ?_
  simp only [hclosed.counts_eq]
  cases total m.setting passes <;> rfl

/-- Tools whose state counts the trees printed. The first is printed as nothing, others as a letter. -/
def countingTools : Tools Nat :=
  { parse := fun _ => return .ok default
    print := fun _ n => (.ok (List.replicate (min n 1) 97), n + 1) }

/-- Two simplifications, the first of which fails once a tree was printed. -/
def flakyMatchers : List (Matcher Nat) :=
  [{ setting := .simplifyExpressions, label := "Flaky", report := Nat.repr
     run := fun tree n => (if n = 0 then .ok (tree, 1) else .error [], n) },
   { setting := .removeDeadCode, label := "Steady", report := Nat.repr
     run := fun tree => return .ok (tree, 2) }]

theorem run_failsClosed_flaky :
    (∃ passes out t, (run countingTools flakyMatchers {} [98]).run 0 = (out, t) ∧
      out.code = [97] ∧ out.matchers.length = 1 ∧
      (run countingTools.noting (flakyMatchers.map Matcher.noting) {} [98]).run (0, []) =
        (out.noting, (t, passes.flatMap Pass.calls)) ∧
      FailsClosed [98] (flakyMatchers.filter fun m => ({} : Options).isOn m.setting) passes out ∧
      (out.result flakyMatchers).transforms = [[49], [54]]) ∧
    (deobfuscate (.of (.ofFunction fun _ => .error []) matchers) {} (Text.ofString "(")).code =
      Text.ofString "(" := by
  obtain ⟨⟨passes,out,t,hrun,hnoted,hclosed,-⟩,hunparsed⟩ :=
    run_failsClosed countingTools flakyMatchers {} [98] 0 (by decide)
  obtain rfl : ((run countingTools flakyMatchers {} [98]).run 0).1 = out := by rw [hrun]
  refine ⟨⟨passes,_,t,hrun,rfl,rfl,hnoted,hclosed,rfl⟩,?_⟩
  cases h : parsed (Text.ofString "(") with
  | error e => exact hunparsed _ _ _ _ e h
  | ok tree =>
    have hfails : (parsed (Text.ofString "(")).toOption.isNone = true := by decide +kernel
    rw [h] at hfails
    cases hfails

end Passes

end Unravel
