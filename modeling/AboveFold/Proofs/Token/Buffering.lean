import AboveFold.Proofs.Grammar.Lookahead
import AboveFold.Token.Stream

/-!
# Looking ahead changes nothing

A stream cannot be told from the plain list of the tokens that it has still to hand out. Whatever it is asked, in any
order and past the end too, it answers what the list would, and its buffer holds what the farthest look still calls for
(`Stream.askAll_ofList`). So a reader that chooses what to ask next by the answers so far reads the same from both
(`Reader.read_eq`), and the grammar may look for the block of a nested rule in the list of tokens to come
(`Reader.seekBlock_eq`).
-/

namespace AboveFold.Token

/-- What a stream can be asked. -/
inductive Call where
  | peek
  | peekAt (n : Nat)
  | next
  | atEnd
deriving DecidableEq, Repr

/-- What a stream answers. -/
inductive Answer where
  | token (t : Option Token)
  | flag (b : Bool)

/-! ## Plain lists -/

namespace Call

/-- The answer to a call if `left` are the tokens that were not handed out yet. -/
def answer (left : List Token) : Call → Answer
  | peek | next => .token left.head?
  | peekAt n => .token left[n]?
  | atEnd => .flag (left.head?.all (·.kind = .eof))

/-- The tokens that are left after a call. -/
def leave (left : List Token) : Call → List Token
  | next => left.tail
  | _ => left

/-- How many tokens a call looks at without handing them out. -/
def reach : Call → Nat
  | peek | atEnd => 1
  | peekAt n => n + 1
  | next => 0

/-- The answers to calls, one after the other. -/
def answers (left : List Token) : List Call → List Answer
  | [] => []
  | c :: later => c.answer left :: answers (c.leave left) later

/-- The tokens that are left after some calls. -/
def leaveAll (left : List Token) (calls : List Call) : List Token :=
  calls.foldl leave left

/-- How far ahead some calls still look at the end: each as far as it reached, less what was handed out after it. -/
def ahead : List Call → Nat
  | [] => 0
  | c :: later => max (c.reach - later.count next) (ahead later)

end Call

/-! ## Streams -/

namespace Stream

/-- The answer of a stream to a call, and the stream after it. -/
def ask (s : Stream) : Call → Answer × Stream
  | .peek => (.token s.peek.1, s.peek.2)
  | .peekAt n => (.token (s.peekAt n).1, (s.peekAt n).2)
  | .next => (.token s.next.1, s.next.2)
  | .atEnd => (.flag s.atEnd.1, s.atEnd.2)

/-- The answers of a stream to calls, one after the other, and the stream after them. -/
def askAll (s : Stream) : List Call → List Answer × Stream
  | [] => ([], s)
  | c :: later =>
    let (answer, s) := s.ask c
    let (answers, s) := s.askAll later
    (answer :: answers, s)

/-- A stream that has `left` still to hand out and `k` of it in its buffer, or all if there are fewer. -/
def holding (left : List Token) (k : Nat) : Stream := ⟨left.take k, left.drop k⟩

variable {left : List Token} {k n : Nat}

theorem ofList_eq (tokens : List Token) : ofList tokens = holding tokens 0 := rfl

@[simp] theorem toList_holding (left : List Token) (k : Nat) : (holding left k).toList = left :=
  List.take_append_drop k left

/-- Every stream holds the front of what it has to hand out. -/
theorem eq_holding (s : Stream) : s = holding s.toList s.buffer.length := by
  simp [holding, toList]

/-- Filling the buffer reaches as far as before or as far as asked, whichever is farther. -/
theorem fill_holding (left : List Token) (k n : Nat) : (holding left k).fill n = holding left (max k n) := by
  unfold fill holding
  dsimp only
  rcases Nat.le_total k left.length with inside | past
  · have more : k + (n - (left.take k).length) = max k n := by
      rw [List.length_take_of_le inside]
      omega
    rw [← more, List.take_add, List.drop_drop]
  · have all : left.length ≤ max k n := by omega
    rw [List.take_of_length_le past, List.drop_of_length_le past, List.take_of_length_le all,
      List.drop_of_length_le all]
    simp

theorem peekAt_holding (left : List Token) (k n : Nat) :
    (holding left k).peekAt n = (left[n]?, holding left (max k (n + 1))) := by
  have inside : n < max k (n + 1) := by omega
  rw [peekAt, fill_holding]
  exact congrArg (·, holding left (max k (n + 1))) (List.getElem?_take_of_lt inside)

theorem peek_holding (left : List Token) (k : Nat) : (holding left k).peek = (left.head?, holding left (max k 1)) := by
  rw [peek, peekAt_holding, List.head?_eq_getElem?]

theorem next_holding (left : List Token) (k : Nat) :
    (holding left k).next = (left.head?, holding left.tail (k - 1)) := by
  have one : max k 1 = k - 1 + 1 := by omega
  rw [next, fill_holding, one]
  cases left with
  | nil => simp [holding]
  | cons t left => rfl

/-- **One call**: the answer is that of the list, and the buffer reaches as far as the farthest look. -/
theorem ask_holding (left : List Token) (k : Nat) (c : Call) :
    (holding left k).ask c = (c.answer left, holding (c.leave left) (max (k - [c].count .next) c.reach)) := by
  cases c with
  | peek => rw [ask, peek_holding]; rfl
  | peekAt n => rw [ask, peekAt_holding]; rfl
  | next => rw [ask, next_holding, List.count_singleton_self, Call.reach, Nat.max_zero]; rfl
  | atEnd => rw [ask, atEnd, peek_holding]; rfl

/-- What calls do to a stream that looked ahead already. -/
theorem askAll_holding (left : List Token) (k : Nat) (calls : List Call) :
    (holding left k).askAll calls = (Call.answers left calls,
      holding (Call.leaveAll left calls) (max (k - calls.count .next) (Call.ahead calls))) := by
  induction calls generalizing left k with
  | nil => simp [askAll, Call.answers, Call.leaveAll, Call.ahead]
  | cons c later ih =>
    -- what was looked at before the call and by it is handed out by the calls after it alike
    have reach : max (max (k - [c].count .next) c.reach - later.count .next) (Call.ahead later)
        = max (k - (c :: later).count .next) (Call.ahead (c :: later)) := by
      have both : (c :: later).count Call.next = [c].count Call.next + later.count Call.next := by
        rw [← List.count_append, List.singleton_append]
      rw [both, Call.ahead]
      omega
    simp only [askAll, ask_holding, ih, reach]
    rfl

/-- Past the end nothing is handed out, and two calls of three leave one of the tokens that were looked at. -/
example (a b c : Token) :
    ((ofList [a, b, c]).askAll [.peekAt 2, .next, .next]).2.buffer = [c]
      ∧ ((ofList [a]).askAll [.peekAt 2, .next, .peek]).1 = [.token none, .token (some a), .token none] := ⟨rfl, rfl⟩

end Stream

/-! ## Readers -/

/-- What reads from a stream: what it asks next depends on the answers that it got. -/
inductive Reader (α : Type) where
  | done (result : α)
  | ask (call : Call) (go : Answer → Reader α)

namespace Reader

variable {α : Type}

/-- What is read from a stream, and the stream after that. -/
def read : Reader α → Stream → α × Stream
  | done result, s => (result, s)
  | ask call go, s => (go (s.ask call).1).read (s.ask call).2

/-- What is read from a list of tokens, and the tokens that are left. -/
def readList : Reader α → List Token → α × List Token
  | done result, left => (result, left)
  | ask call go, left => (go (call.answer left)).readList (call.leave left)

/-- **A reader cannot tell a stream from a list.** -/
theorem read_eq (r : Reader α) (s : Stream) :
    (r.read s).1 = (r.readList s.toList).1 ∧ (r.read s).2.toList = (r.readList s.toList).2 := by
  induction r generalizing s with
  | done result => exact ⟨rfl, rfl⟩
  | ask call go ih =>
    obtain ⟨answers, leaves⟩ : (s.ask call).1 = call.answer s.toList ∧ (s.ask call).2.toList = call.leave s.toList := by
      rw [s.eq_holding, Stream.ask_holding, Stream.toList_holding, Stream.toList_holding]
      exact ⟨rfl, rfl⟩
    rw [read, readList, ← answers, ← leaves]
    exact ih _ _

/-- Looks for a block from the token after `n` others on, at `fuel` tokens at most. -/
def seekBlock (n : Nat) : (fuel : Nat) → Reader Bool
  | 0 => done false
  | fuel + 1 => ask (.peekAt n) fun
    | .token (some t) =>
      if Grammar.endsLookahead t.kind then done (t.kind = .curlyOpen) else seekBlock (n + 1) fuel
    | _ => done false

theorem readList_seekBlock {left : List Token} {n fuel : Nat} (enough : left.length < n + fuel) :
    (seekBlock n fuel).readList left = (Grammar.blockFollows (left.drop n), left) := by
  induction fuel generalizing n with
  | zero =>
    rw [List.drop_of_length_le (by omega)]
    rfl
  | succ fuel ih =>
    simp only [seekBlock, readList, Call.answer, Call.leave]
    cases found : left[n]? with
    | none =>
      rw [List.drop_of_length_le (List.getElem?_eq_none_iff.1 found)]
      rfl
    | some t =>
      obtain ⟨inside, rfl⟩ := List.getElem?_eq_some_iff.1 found
      rw [List.drop_eq_getElem_cons inside, Grammar.blockFollows_cons]
      dsimp only
      split
      next => rfl
      next => exact ih (by omega)

/-- **The look ahead for a nested rule**: behind the next token of a stream a block is found exactly if the grammar finds
one in the tokens to come, and all of them are still there. -/
theorem seekBlock_eq (s : Stream) {fuel : Nat} (enough : s.toList.length ≤ fuel) :
    ((seekBlock 1 fuel).read s).1 = Grammar.blockFollows s.toList.tail
      ∧ ((seekBlock 1 fuel).read s).2.toList = s.toList := by
  have list : (seekBlock 1 fuel).readList s.toList = (Grammar.blockFollows (s.toList.drop 1), s.toList) :=
    readList_seekBlock (by omega)
  obtain ⟨result, left⟩ := (seekBlock 1 fuel).read_eq s
  rw [result, left, list, List.drop_one]
  exact ⟨rfl, rfl⟩

end Reader

end AboveFold.Token
