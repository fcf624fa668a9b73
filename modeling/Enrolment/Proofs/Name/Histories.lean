import Enrolment.Proofs.Name.Track

/-!
The histories of claims. A claim that is made anew goes along the path to registration and stops
somewhere on it, or leaves it early by a timeout; each such history is that of some claim. A claim on a
name that is registered already never moves.
-/

namespace Enrolment

namespace ClaimState

variable {state target : ClaimState}

/-- The histories of claims that are made anew: a start of the path, or one that a timeout ended before
the end of the path. -/
def IsLife (history : List ClaimState) : Prop :=
  history ≠ [] ∧ history <+: path ∨
    ∃ held, held ≠ [] ∧ held ≠ path ∧ held <+: path ∧ history = held ++ [.timedOut]

/-- The states between which a claim may move: from one of the path to the next, and to a timeout from
those that are not final. -/
theorem mayBecome_iff : state.mayBecome target = true ↔
    (∃ i : Nat, path[i]? = some state ∧ path[i + 1]? = some target) ∨
      target = .timedOut ∧ state ≠ .registered ∧ state ≠ .timedOut := by
  constructor
  · intro h
    by_cases htarget : target = .timedOut
    · subst htarget
      refine .inr ⟨rfl, ?_⟩
      revert h
      cases state <;> decide
    · refine .inl ⟨state.rank, ?_⟩
      revert h htarget
      cases state <;> cases target <;> decide
  · rintro (⟨i, hstate, htarget⟩ | ⟨rfl, hregistered, htimedOut⟩)
    · have hi : i < 4 := by
        obtain ⟨hlt, -⟩ := List.getElem?_eq_some_iff.mp htarget
        exact Nat.lt_of_succ_lt_succ hlt
      revert hstate htarget
      match i, hi with
      | 0, _ | 1, _ | 2, _ | 3, _ =>
        rintro ⟨rfl⟩ ⟨rfl⟩
        rfl
    · revert hregistered htimedOut
      cases state <;> decide

theorem exists_eq_take {held : List ClaimState} (hne : held ≠ []) (h : held <+: path) :
    ∃ steps < 5, held = path.take (steps + 1) := by
  have hpos : 1 ≤ held.length := List.length_pos_iff.mpr hne
  have hle : held.length ≤ 5 := h.length_le
  refine ⟨held.length - 1, by omega, ?_⟩
  rw [Nat.sub_add_cancel hpos]
  exact List.prefix_iff_eq_take.mp h

theorem isFinal_iff : state.isFinal = true ↔ state = .registered ∨ state = .timedOut := by
  cases state <;> decide

theorem rank_lt_of_not_isFinal (h : state.isFinal = false) : state.rank < 4 := by
  revert h
  cases state <;> decide

end ClaimState

namespace Track

variable {history : List ClaimState} {state : ClaimState}

theorem getLast?_eq (h : Track history state) : history.getLast? = some state := by
  cases h <;> simp

/-- A track that starts with nothing submitted keeps to the path, or leaves it by a timeout. -/
theorem isLife (h : Track history state) (hstart : history.head? = some .unregistered) :
    ClaimState.IsLife history := by
  by_cases hstate : state.isFinal = false
  · exact .inl ⟨h.ne_nil, h.eq_take hstate ▸ List.take_prefix ..⟩
  cases h with
  | fresh => exact absurd rfl hstate
  | adopted => cases hstart
  | @next history state target h hstep =>
    have hopen := ClaimState.isFinal_of_mayBecome hstep
    have hheld := h.eq_take hopen
    rcases ClaimState.isFinal_iff.mp (by simpa using hstate) with rfl | rfl
    · have hnext : state.next? = some .registered := by simpa [ClaimState.mayBecome] using hstep
      refine .inl ⟨by simp, ?_⟩
      rw [hheld, ← ClaimState.take_path_of_next? hnext]
      exact List.take_prefix ..
    · refine .inr ⟨history, h.ne_nil, ?_, hheld ▸ List.take_prefix .., rfl⟩
      intro heq
      have hlength := congrArg List.length (hheld.symm.trans heq)
      have hrank := ClaimState.rank_lt_of_not_isFinal hopen
      rw [List.length_take] at hlength
      simp only [ClaimState.path, List.length_cons, List.length_nil] at hlength
      omega

end Track

namespace Claim

/-- What can be done to a claim. -/
inductive Move where
  | advance (target : ClaimState) (now : Timestamp)
  | expire (now : Timestamp)

/-- The claim after a move; it stays as it is if the move is refused. -/
def make (c : Claim) : Move → Claim
  | .advance target now => c.moved target now
  | .expire now => c.expire now

def makeAll (c : Claim) (moves : List Move) : Claim := moves.foldl make c

variable {c : Claim} {move : Move}

theorem make_cases (c : Claim) (move : Move) : c.make move = c ∨
    ∃ target now, c.state.mayBecome target ∧ c.make move = c.enter target now := by
  cases move with
  | advance target now => exact (c.moved_cases target now).imp_right fun h => ⟨target, now, h⟩
  | expire now =>
    rcases c.expire_cases now with ⟨hsame, -⟩ | h
    · exact .inl hsame
    · exact .inr ⟨.timedOut, now, h⟩

/-- What entering a state that may follow preserves is preserved by all moves. -/
theorem makeAll_induction {P : Claim → Prop} (hstart : P c)
    (hstep : ∀ c target now, P c → c.state.mayBecome target → P (c.enter target now))
    (moves : List Move) : P (c.makeAll moves) := by
  induction moves generalizing c with
  | nil => exact hstart
  | cons move rest ih =>
    refine ih (c := c.make move) ?_
    rcases c.make_cases move with hsame | ⟨target, now, hmay, hmoved⟩
    · rwa [hsame]
    · rw [hmoved]
      exact hstep c target now hstart hmay

/-- No move changes what a claim is about. -/
theorem subject_makeAll (c : Claim) (moves : List Move) :
    (c.makeAll moves).label = c.label ∧ (c.makeAll moves).owner = c.owner ∧
      (c.makeAll moves).salt = c.salt ∧ (c.makeAll moves).commitment = c.commitment :=
  makeAll_induction (P := fun c' => c'.label = c.label ∧ c'.owner = c.owner ∧ c'.salt = c.salt ∧
    c'.commitment = c.commitment) ⟨rfl, rfl, rfl, rfl⟩ (fun _ _ _ h _ => h) moves

theorem track_makeAll {first : ClaimState} (h : Track c.history c.state)
    (hfirst : c.history.head? = some first) (moves : List Move) :
    Track (c.makeAll moves).history (c.makeAll moves).state ∧
      (c.makeAll moves).history.head? = some first := by
  refine makeAll_induction (P := fun c' => Track c'.history c'.state ∧
    c'.history.head? = some first) ⟨h, hfirst⟩ ?_ moves
  rintro c' target now ⟨htrack, hhead⟩ hmay
  refine ⟨htrack.next hmay, ?_⟩
  rw [history_enter, List.head?_append, hhead]
  rfl

/-- A final claim stays as it is. -/
theorem makeAll_of_isFinal (h : c.state.isFinal = true) (moves : List Move) :
    c.makeAll moves = c := by
  refine makeAll_induction (P := (· = c)) rfl ?_ moves
  rintro _ target now rfl hmay
  rw [ClaimState.isFinal_of_mayBecome hmay] at h
  cases h

theorem exists_advance_iff {target : ClaimState} {now : Timestamp} :
    (∃ c', c.advance target now = .ok c') ↔ c.state.mayBecome target := by
  unfold advance
  by_cases h : c.state.mayBecome target <;> simp [h]

theorem make_of_refused {target : ClaimState} {now : Timestamp} {e : Error}
    (h : c.advance target now = .error e) : c.make (.advance target now) = c := by
  simp [make, moved, h, Except.toOption]

/-- Moves along the path, by so many states. -/
def climb (steps : Nat) (now : Timestamp) : List Move :=
  (ClaimState.path.tail.take steps).map (Move.advance · now)

section Living

variable [Suite] (label : Label) (owner : IdentityId) (salt : Salt) (now : Timestamp)

theorem history_climb {steps : Nat} (h : steps < 5) :
    ((fresh label owner salt now).makeAll (climb steps now)).history =
      ClaimState.path.take (steps + 1) := by
  match steps, h with
  | 0, _ | 1, _ | 2, _ | 3, _ | 4, _ => rfl

theorem history_climb_expire {steps : Nat} (h : steps < 4) :
    ((fresh label owner salt now).makeAll (climb steps now ++ [.expire now])).history =
      ClaimState.path.take (steps + 1) ++ [.timedOut] := by
  match steps, h with
  | 0, _ | 1, _ | 2, _ | 3, _ => rfl

/-- Each history that a claim may have is the history of one after some moves. -/
theorem exists_makeAll_of_isLife {history : List ClaimState} (h : ClaimState.IsLife history) :
    ∃ moves, ((fresh label owner salt now).makeAll moves).history = history := by
  rcases h with ⟨hne, hprefix⟩ | ⟨held, hne, hshort, hprefix, rfl⟩
  · obtain ⟨steps, hsteps, rfl⟩ := ClaimState.exists_eq_take hne hprefix
    exact ⟨climb steps now, history_climb label owner salt now hsteps⟩
  · obtain ⟨steps, hsteps, rfl⟩ := ClaimState.exists_eq_take hne hprefix
    have hlast : steps ≠ 4 := by
      rintro rfl
      exact hshort rfl
    exact ⟨climb steps now ++ [.expire now], history_climb_expire label owner salt now (by omega)⟩

/-- A claim that is made anew has a history that keeps to the path or was ended by a timeout, and every
such history is one of some claim; a claim on a registered name has one state for ever. Moves are
refused exactly where no state follows, and then nothing changes; and what a claim is about never
changes. -/
theorem histories_follow_path :
    (∀ moves, let c := (fresh label owner salt now).makeAll moves
      c.history.head? = some .unregistered ∧ c.history.getLast? = some c.state ∧
        ClaimState.IsLife c.history) ∧
    (∀ history, ClaimState.IsLife history →
      ∃ moves, ((fresh label owner salt now).makeAll moves).history = history) ∧
    (∀ moves, let c := (adopted label owner salt now).makeAll moves
      c.history = [.registered] ∧ c.state = .registered) ∧
    (∀ (c : Claim) target time, (∃ c', c.advance target time = .ok c') ↔
      (∃ i : Nat, ClaimState.path[i]? = some c.state ∧ ClaimState.path[i + 1]? = some target) ∨
        target = .timedOut ∧ c.state ≠ .registered ∧ c.state ≠ .timedOut) ∧
    (∀ (c : Claim) target time e, c.advance target time = .error e →
      c.make (.advance target time) = c) ∧
    (∀ (c : Claim) time, c.state = .registered ∨ c.state = .timedOut → c.make (.expire time) = c) ∧
    ∀ (c : Claim) moves, (c.makeAll moves).label = c.label ∧ (c.makeAll moves).owner = c.owner ∧
      (c.makeAll moves).salt = c.salt ∧ (c.makeAll moves).commitment = c.commitment := by
  refine ⟨?_, fun history => exists_makeAll_of_isLife label owner salt now, ?_, ?_,
    fun c target time e => make_of_refused, ?_, subject_makeAll⟩
  · intro moves c
    obtain ⟨htrack, hfirst⟩ : Track c.history c.state ∧ c.history.head? = some .unregistered :=
      track_makeAll .fresh rfl moves
    exact ⟨hfirst, htrack.getLast?_eq, htrack.isLife hfirst⟩
  · intro moves c
    have hsame : c = adopted label owner salt now := makeAll_of_isFinal rfl moves
    rw [hsame]
    exact ⟨rfl, rfl⟩
  · intro c target time
    rw [exists_advance_iff, ClaimState.mayBecome_iff]
  · intro c time hfinal
    exact expire_of_isFinal (ClaimState.isFinal_iff.mpr hfinal) time

end Living

/-- A claim that skips a step, is timed out, and is moved on. -/
theorem histories_follow_path_timedOut :
    let moves : List Move := [.advance .preorderSubmitted .epoch, .advance .domainSubmitted .epoch,
      .expire .epoch, .advance .preorderConfirmed .epoch, .expire .epoch]
    let c := (@fresh .standard ⟨"alice", "alice", "dash"⟩ ⟨.zero⟩ ⟨.zero⟩ .epoch).makeAll moves
    c.history = [.unregistered, .preorderSubmitted, .timedOut] ∧ ClaimState.IsLife c.history ∧
      c.history.getLast? = some c.state ∧ c.make (.expire .epoch) = c := by
  intro moves c
  obtain ⟨hmoves, -, -, -, -, hfinal, -⟩ :=
    @histories_follow_path .standard ⟨"alice", "alice", "dash"⟩ ⟨.zero⟩ ⟨.zero⟩ .epoch
  obtain ⟨-, hlast, hlife⟩ := hmoves moves
  exact ⟨rfl, hlife, hlast, hfinal c .epoch (.inr rfl)⟩

end Claim

end Enrolment
