import DirectiveQuery.Proofs.Compile.Compiler
import DirectiveQuery.Session

/-
  The memory of a session. What a session answers, and how often it has parsed a query, is told
  here from the steps that it was asked before, without anything that is remembered. The two
  tellings agree (`run_memory`): a step keeps `Follows`, which says that what the held compiler
  remembers is the descriptor that compiling anew would give, and that it remembers one exactly
  if it was asked for one with success since it was made or got its options.
-/
namespace DirectiveQuery

/-- The steps that were asked, the latest one first. -/
abbrev History := List Step

namespace History

/-- The setting of the compiler that is held after the steps, if one is held. -/
def setting? : History → Option Setting
  | [] => none
  | .start query :: _ => if Text.isAllBlank query.toList then none else some ⟨query, {}⟩
  | .setOptions options :: earlier => (setting? earlier).map fun s => { s with options := options }
  | .descriptor :: earlier | .expression :: earlier => setting? earlier
  | .finish :: _ => none

/-- Since the held compiler was made or got its options, it was asked for a descriptor and
there was one. -/
def hasDescriptor : History → Bool
  | .descriptor :: earlier =>
    hasDescriptor earlier || (setting? earlier).any fun s => s.descriptor.toOption.isSome
  | .expression :: earlier => hasDescriptor earlier
  | _ => false

/-- The answer to a step after others, by the setting alone. -/
def answer (earlier : History) : Step → Answer
  | .start query => if Text.isAllBlank query.toList then .refused .emptyQuery else .done
  | .setOptions _ => if (setting? earlier).isSome then .done else .noCompiler
  | .descriptor | .finish =>
    match setting? earlier with
    | some s => .descriptor s.descriptor
    | none => .noCompiler
  | .expression =>
    match setting? earlier with
    | some s => .expression (Expression.ofQuery s.query)
    | none => .noCompiler

/-- A held compiler is asked for the tree of its query. -/
def asksTree (earlier : History) (step : Step) : Bool :=
  (setting? earlier).isSome && step = .expression

/-- A held compiler that has had no descriptor yet is asked for one. -/
def asksAnew (earlier : History) (step : Step) : Bool :=
  (setting? earlier).isSome && (step = .descriptor || step = .finish) && !hasDescriptor earlier

/-- How many steps there were of which `kind` holds, after the steps before them. -/
def count (kind : History → Step → Bool) : History → Nat
  | [] => 0
  | step :: earlier => count kind earlier + (kind earlier step).toNat

/-- How often a query was parsed. -/
def parses (history : History) : Nat := history.count asksTree + history.count asksAnew

/-- The answers to steps after others, each with the number of parses made by then. -/
def answers (earlier : History) : List Step → List (Answer × Nat)
  | [] => []
  | step :: steps =>
    (earlier.answer step, parses (step :: earlier)) :: answers (step :: earlier) steps

theorem parses_cons (step : Step) (earlier : History) : parses (step :: earlier) =
    parses earlier + ((asksTree earlier step).toNat + (asksAnew earlier step).toNat) := by
  simp only [parses, count]
  omega

end History

namespace Compiler

/-- What the compiler remembers is the descriptor of its setting. -/
def IsFaithful (c : Compiler) : Prop := ∀ d, c.memo = some d → c.setting.descriptor = .ok d

/-- What is remembered could be compiled again, and spares a parse. -/
theorem IsFaithful.run_descriptor {c : Compiler} (h : c.IsFaithful) (n : Nat) :
    c.descriptor.run.run n = (c.setting.descriptor.map fun d => (d, { c with memo := some d }),
      n + (!c.memo.isSome).toNat) := by
  cases hm : c.memo with
  | none => exact run_descriptor_of_none hm n
  | some d =>
    have hc : c = { c with memo := some d } := by rw [← hm]
    rw [run_descriptor_of_some hm, h d hm, except_map_ok, ← hc]
    rfl

theorem IsFaithful.run_intoDescriptor {c : Compiler} (h : c.IsFaithful) (n : Nat) :
    c.intoDescriptor.run.run n = (c.setting.descriptor, n + (!c.memo.isSome).toNat) := by
  cases hm : c.memo with
  | none => exact run_intoDescriptor_of_none hm n
  | some d =>
    rw [run_intoDescriptor_of_some hm, h d hm]
    rfl

end Compiler

namespace Session

/-- The session is where the steps have led a fresh one, as far as it can be told. -/
structure Follows (s : Session) (history : History) : Prop where
  setting : s.held.map Compiler.setting = history.setting?
  faithful : ∀ c, s.held = some c → c.IsFaithful
  memo : ∀ c, s.held = some c → c.memo.isSome = history.hasDescriptor
  parses : s.parses = history.parses

theorem follows_fresh : Follows fresh [] := by
  constructor <;> simp [fresh, History.setting?, History.parses, History.count]

/-- No compiler is held. -/
theorem Follows.of_none {history : History} {n : Nat} (hs : history.setting? = none)
    (hn : n = history.parses) : Follows ⟨none, n⟩ history := by
  constructor <;> simp [hs, hn]

theorem Follows.of_some {c : Compiler} {history : History} {n : Nat}
    (hs : history.setting? = some c.setting) (hc : c.IsFaithful)
    (hm : c.memo.isSome = history.hasDescriptor) (hn : n = history.parses) :
    Follows ⟨some c, n⟩ history := by
  constructor
  · exact hs.symm
  · rintro _ ⟨⟩
    exact hc
  · rintro _ ⟨⟩
    exact hm
  · exact hn

/-- A new compiler takes the place of the one that was held. -/
theorem Follows.start {s : Session} {history : History} (h : Follows s history)
    (query : String) : (s.step (.start query)).1 = history.answer (.start query) ∧
      Follows (s.step (.start query)).2 (.start query :: history) := by
  have hparses : s.parses = History.parses (.start query :: history) := by
    simp [History.parses_cons, History.asksTree, History.asksAnew, h.parses]
  by_cases hb : Text.isAllBlank query.toList
  · have hs : History.setting? (.start query :: history) = none := if_pos hb
    simp only [Session.step, Compiler.ofQuery, History.answer, if_pos hb, true_and]
    exact .of_none hs hparses
  · have hs : History.setting? (.start query :: history) = some ⟨query, {}⟩ := if_neg hb
    simp only [Session.step, Compiler.ofQuery, History.answer, if_neg hb, true_and]
    exact .of_some hs (by rintro d ⟨⟩) rfl hparses

/-- Without a compiler nothing but a new one makes a difference. -/
theorem Follows.step_none {n : Nat} {history : History} (h : Follows ⟨none, n⟩ history)
    (t : Step) : (step ⟨none, n⟩ t).1 = history.answer t ∧
      Follows (step ⟨none, n⟩ t).2 (t :: history) := by
  have hs : history.setting? = none := h.setting.symm
  have hn : n = history.parses := h.parses
  cases t with
  | start query => exact h.start query
  | _ =>
    constructor
    · simp [Session.step, History.answer, hs]
    · refine .of_none ?_ ?_ <;>
        simp [History.setting?, History.parses_cons, History.asksTree, History.asksAnew, hs, hn]

/-- A step is answered as the history tells, and leads on with the history. -/
theorem Follows.step {s : Session} {history : History} (h : Follows s history) (t : Step) :
    (s.step t).1 = history.answer t ∧ Follows (s.step t).2 (t :: history) := by
  obtain ⟨held, n⟩ := s
  cases held with
  | none => exact h.step_none t
  | some c =>
    have hs : history.setting? = some c.setting := h.setting.symm
    have hn : n = history.parses := h.parses
    have hc := h.faithful c rfl
    have hm := h.memo c rfl
    cases t with
    | start query => exact h.start query
    | setOptions options =>
      simp only [Session.step, History.answer, hs, Option.isSome_some, if_true, true_and]
      refine .of_some ?_ (by rintro d ⟨⟩) rfl ?_
      · rw [History.setting?, hs]
        rfl
      · simp [History.parses_cons, History.asksTree, History.asksAnew, hn]
    | descriptor =>
      have hsetting : History.setting? (.descriptor :: history) = some c.setting := hs
      have hparses : n + (!c.memo.isSome).toNat = History.parses (.descriptor :: history) := by
        simp [History.parses_cons, History.asksTree, History.asksAnew, hs, hn, hm]
      simp only [Session.step, History.answer, hs, hc.run_descriptor]
      cases hd : c.setting.descriptor with
      | ok d =>
        refine ⟨rfl, .of_some hsetting ?_ ?_ hparses⟩
        · rintro _ ⟨⟩
          exact hd
        · rw [History.hasDescriptor, hs, Option.any_some, hd, Except.toOption, Option.isSome_some,
            Bool.or_true]
      | error e =>
        refine ⟨rfl, .of_some hsetting hc ?_ hparses⟩
        rw [History.hasDescriptor, hs, Option.any_some, hd, Except.toOption, Option.isSome_none,
          Bool.or_false, hm]
    | expression =>
      simp only [Session.step, History.answer, hs, c.run_expression]
      refine ⟨rfl, .of_some ?_ hc ?_ ?_⟩
      · rw [History.setting?, hs]
      · rw [hm, History.hasDescriptor]
      · simp [History.parses_cons, History.asksTree, History.asksAnew, hs, hn]
    | finish =>
      simp only [Session.step, History.answer, hs, hc.run_intoDescriptor, true_and]
      refine .of_none rfl ?_
      simp [History.parses_cons, History.asksTree, History.asksAnew, hs, hn, hm]

theorem run_cons (s : Session) (t : Step) (ts : List Step) :
    s.run (t :: ts) = ((s.step t).1, (s.step t).2.parses) :: (s.step t).2.run ts := rfl

theorem Follows.run {s : Session} {history : History} (h : Follows s history)
    (steps : List Step) : s.run steps = history.answers steps := by
  induction steps generalizing s history with
  | nil => rfl
  | cons t ts ih =>
    obtain ⟨hanswer, hnext⟩ := h.step t
    rw [run_cons, History.answers, ← hanswer, ← hnext.parses, ih hnext]

/-- The session after some steps. -/
def after (s : Session) (steps : List Step) : Session := steps.foldl (fun s t => (s.step t).2) s

theorem Follows.after {s : Session} {history : History} (h : Follows s history)
    (steps : List Step) : Follows (s.after steps) (steps.reverse ++ history) := by
  induction steps generalizing s history with
  | nil => exact h
  | cons t ts ih =>
    rw [List.reverse_cons, List.append_assoc]
    exact ih (h.step t).2

theorem run_append (s : Session) (steps more : List Step) :
    s.run (steps ++ more) = s.run steps ++ (s.after steps).run more := by
  induction steps generalizing s with
  | nil => rfl
  | cons t ts ih =>
    rw [List.cons_append, run_cons, run_cons, ih]
    rfl

theorem after_concat (s : Session) (steps : List Step) (t : Step) :
    s.after (steps ++ [t]) = ((s.after steps).step t).2 := by
  rw [after, List.foldl_append]
  rfl

theorem held_step_start (s : Session) (query : String) : (s.step (.start query)).2.held =
    if Text.isAllBlank query.toList then none else some { query := query } := by
  by_cases hb : Text.isAllBlank query.toList
  · simp only [step, Compiler.ofQuery, if_pos hb]
  · simp only [step, Compiler.ofQuery, if_neg hb]

theorem held_step_finish (s : Session) : (s.step .finish).2.held = none := by
  cases h : s.held with
  | none => simp only [step, h]
  | some c =>
    simp only [step, h]
    rfl

/-- What a session remembers shows in the number of parses only. Every step is answered from the
query and the options in force. The parses are those for the trees that a held compiler was
asked for, and those for descriptors when it had not had one yet under its options. A compiler
is held with the query and the options in force: one for a query that is not blank takes the
place of the one before it, and none is left by a blank query and by `finish`. Asking twice
gives the same descriptor or the same failure. -/
theorem run_memory (steps : List Step) :
    fresh.run steps = History.answers [] steps ∧
    (fresh.after steps).held.map Compiler.setting = History.setting? steps.reverse ∧
    (∀ query, (fresh.after (steps ++ [.start query])).held =
      if Text.isAllBlank query.toList then none else some { query := query }) ∧
    (fresh.after (steps ++ [.finish])).held = none ∧
    ∃ answer n m, fresh.run (steps ++ [.descriptor, .descriptor]) =
      fresh.run steps ++ [(answer, n), (answer, m)] := by
  have hfollows := follows_fresh.after steps
  rw [List.append_nil] at hfollows
  refine ⟨follows_fresh.run steps, hfollows.setting, fun query => ?_, ?_, ?_⟩
  · rw [after_concat, held_step_start]
  · rw [after_concat, held_step_finish]
  · rw [run_append, hfollows.run]
    exact ⟨History.answer steps.reverse .descriptor, _, _, rfl⟩

end Session

end DirectiveQuery
