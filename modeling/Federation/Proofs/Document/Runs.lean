import Federation.Proofs.Document.Contracts
import Mathlib.Algebra.BigOperators.Group.List.Basic

/-!
# Readers on given tokens

What a reader makes of tokens that are known, and what it leaves. Items up to a closing mark are read
one after the other if each of them can be followed by the next, and the last one by the mark.
-/

namespace Federation.Document

namespace Reader

variable {α β : Type}

/-- After a reader that gives a result, the next one goes on with what is left. -/
theorem run_bind_ok {x : Reader α} {k : α → Reader β} {tokens left : List Token} {a : α}
    (h : StateT.run x tokens = .ok (a, left)) :
    StateT.run (x >>= k) tokens = StateT.run (k a) left := by
  rw [StateT.run_bind, h]
  rfl

/-! ## Single tokens -/

theorem run_get (tokens : List Token) :
    StateT.run (get : Reader (List Token)) tokens = .ok (tokens, tokens) :=
  rfl

theorem run_peek (t : Token) (rest : List Token) :
    StateT.run peek (t :: rest) = .ok (some t, t :: rest) :=
  rfl

theorem run_advance (t : Token) (rest : List Token) :
    StateT.run advance (t :: rest) = .ok ((), rest) :=
  rfl

theorem run_atMark (m : Mark) (tokens : List Token) :
    StateT.run (atMark m) tokens = .ok (tokens.head? == some (.mark m), tokens) :=
  rfl

theorem run_accept_mark (m : Mark) (rest : List Token) :
    StateT.run (accept m) (.mark m :: rest) = .ok (true, rest) := by
  rw [accept, run_bind_ok (run_atMark m _), if_pos (by simp)]
  rfl

theorem run_accept_of_ne {m : Mark} {tokens : List Token} (h : tokens.head? ≠ some (.mark m)) :
    StateT.run (accept m) tokens = .ok (false, tokens) := by
  rw [accept, run_bind_ok (run_atMark m _), if_neg (by simpa using h)]
  rfl

theorem run_expect (m : Mark) (rest : List Token) :
    StateT.run (expect m) (.mark m :: rest) = .ok ((), rest) := by
  rw [expect, run_bind_ok (run_accept_mark m rest), if_pos rfl]
  rfl

theorem run_name (text : String) (rest : List Token) :
    StateT.run name (.name text :: rest) = .ok (text, rest) :=
  rfl

section UpTo

/-! ## Items up to a closing mark -/

variable {close : Mark} {item : Reader β} {tokens : α → List Token} {value : α → β}
  {follows : Token → Prop} {items : List α}

/-- What is left behind an item starts with a token that may follow it. -/
theorem exists_follows (hstart : ∀ a ∈ items, ∃ t ts, tokens a = t :: ts ∧ t ≠ .mark close ∧ follows t)
    (hclose : follows (.mark close)) (rest : List Token) :
    ∃ t left, items.flatMap tokens ++ .mark close :: rest = t :: left ∧ follows t := by
  cases items with
  | nil => exact ⟨_, rest, rfl, hclose⟩
  | cons a items =>
    obtain ⟨t, ts, hts, -, hfollows⟩ := hstart a List.mem_cons_self
    refine ⟨t, ts ++ (items.flatMap tokens ++ .mark close :: rest), ?_, hfollows⟩
    rw [List.flatMap_cons, hts, List.append_assoc, List.cons_append]

/-- There are as many rounds as items, and no more are needed. -/
theorem run_repeatFor
    (hread : ∀ a ∈ items, ∀ t rest, follows t →
      StateT.run item (tokens a ++ t :: rest) = .ok (value a, t :: rest))
    (hstart : ∀ a ∈ items, ∃ t ts, tokens a = t :: ts ∧ t ≠ .mark close ∧ follows t)
    (hclose : follows (.mark close)) (rest : List Token) {times : Nat}
    (htimes : items.length ≤ times) :
    StateT.run (repeatFor (fun tokens => tokens.head? != some (.mark close)) item times)
        (items.flatMap tokens ++ .mark close :: rest) =
      .ok (items.map value, .mark close :: rest) := by
  induction items generalizing times with
  | nil =>
    cases times with
    | zero => rfl
    | succ times =>
      rw [repeatFor, run_bind_ok (run_get _), if_neg (by simp)]
      rfl
  | cons a items ih =>
    cases times with
    | zero => cases htimes
    | succ times =>
      obtain ⟨hfirst, hothers⟩ := List.forall_mem_cons.mp hread
      obtain ⟨⟨t, ts, hts, hne, -⟩, hstarts⟩ := List.forall_mem_cons.mp hstart
      -- behind the item comes the next one or the closing mark
      obtain ⟨next, left, hleft, hfollows⟩ := exists_follows hstarts hclose rest
      have hmore : (((a :: items).flatMap tokens ++ .mark close :: rest).head? !=
          some (.mark close)) = true := by
        simp [List.flatMap_cons, hts, hne]
      have hitem := hfirst next left hfollows
      rw [← hleft, ← List.append_assoc, ← List.flatMap_cons] at hitem
      have hrest := ih hothers hstarts (Nat.le_of_succ_le_succ htimes)
      rw [repeatFor, run_bind_ok (run_get _), if_pos hmore, run_bind_ok hitem, run_bind_ok hrest]
      rfl

/-- **Items are read up to the closing mark.** -/
theorem run_upTo
    (hread : ∀ a ∈ items, ∀ t rest, follows t →
      StateT.run item (tokens a ++ t :: rest) = .ok (value a, t :: rest))
    (hstart : ∀ a ∈ items, ∃ t ts, tokens a = t :: ts ∧ t ≠ .mark close ∧ follows t)
    (hclose : follows (.mark close)) (rest : List Token) :
    StateT.run (upTo close item) (items.flatMap tokens ++ .mark close :: rest) =
      .ok (items.map value, rest) := by
  have hlength : items.length ≤ (items.flatMap tokens ++ .mark close :: rest).length := by
    have hitems : items.length ≤ (items.flatMap tokens).length := by
      -- each item takes a token
      have hone : ∀ n ∈ items.map fun a => (tokens a).length, 1 ≤ n := by
        intro n hn
        obtain ⟨a, ha, rfl⟩ := List.mem_map.mp hn
        obtain ⟨t, ts, hts, -⟩ := hstart a ha
        rw [hts]
        exact Nat.succ_pos _
      rw [List.length_flatMap, ← List.length_map (fun a => (tokens a).length)]
      exact List.length_le_sum_of_one_le _ hone
    rw [List.length_append]
    omega
  have hitems : StateT.run (repeatWhile (fun tokens => tokens.head? != some (.mark close)) item)
      (items.flatMap tokens ++ .mark close :: rest) =
        .ok (items.map value, .mark close :: rest) := by
    rw [repeatWhile, run_bind_ok (run_get _)]
    exact run_repeatFor hread hstart hclose rest hlength
  rw [upTo, run_bind_ok hitems, run_bind_ok (run_expect close rest)]
  rfl

end UpTo

end Reader

end Federation.Document
