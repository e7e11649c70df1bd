import Eipc.Session

/-!
# Challenges are single-use

`CreateChallenge` replaces the challenge that is pending for its service, and
`VerifyResponse` removes it before it looks at the response. Hence a response that
is accepted answers one challenge, and no other response does, accepted or not.

The statement is about positions of the log of a run, since two challenges may
happen to have one nonce: every response that is accepted has its challenge
(`Authenticator.Answers`), no two have the same one, and between the two nobody
called for the service (`Authenticator.challenge_single_use`). The number of
sessions that a service was given for responses is bounded by the number of its
challenges, because what is pending for it is a credit of at most one
(`Authenticator.credit_step`).

`crypto/rand` never returns an error (it stops the program instead), so no call of
`CreateChallenge` fails for want of a nonce (`Authenticator.NoncesDrawn`). If one
could, it would leave the challenge of an earlier call pending.
-/

open Bytes

namespace Authenticator

variable {Conn : Type}

namespace Event

/-- The response for the service that the call accepted, if it did. -/
def accepted (e : Event Conn) (serviceID : Bytes) : Option Bytes :=
  match e.call, e.answer with
  | .verifyResponse _ _ s response, .peer (.ok _) => if s = serviceID then some response else none
  | _, _ => none

/-- The call was `CreateChallenge` or `VerifyResponse`, for the service. -/
def concerns (e : Event Conn) (serviceID : Bytes) : Bool :=
  match e.call with
  | .createChallenge _ _ s => s = serviceID
  | .verifyResponse _ _ s _ => s = serviceID
  | _ => false

end Event

/-- The call at position `j` of the log accepted `response` for the service `s`. -/
def AcceptedAt (log : List (Event Conn)) (s response : Bytes) (j : ℕ) : Prop :=
  ∃ e, log[j]? = some e ∧ e.accepted s = some response

/-- The response at position `j` of the log is matched to the challenge at position
`i`. -/
structure Answers (secret : Bytes) (known : Finmap (fun _ : Bytes => List Bytes))
    (log : List (Event Conn)) (s response : Bytes) (i j : ℕ) : Prop where
  earlier : i < j
  configured : s ∈ known
  issued : ∃ e nonce, log[i]? = some e ∧ e.issued s = some nonce
    ∧ response = hmacSha256 secret nonce
  alone : ∀ k e, i < k → k < j → log[k]? = some e → e.concerns s = false

/-- The random source gave every call of `CreateChallenge` its nonce. -/
def NoncesDrawn (calls : List (Conn × Call)) : Prop :=
  ∀ c now draw s, (c, .createChallenge now draw s) ∈ calls → ∃ b, draw = .ok b

/-! ## Single events -/

namespace Event

variable {e : Event Conn} {s s' response : Bytes}

theorem accepted_eq_some_iff :
    e.accepted s = some response ↔
      ∃ now draw peer, e.call = .verifyResponse now draw s response
        ∧ e.answer = .peer (.ok peer) := by
  unfold accepted
  constructor
  · intro h
    split at h
    · next now draw s' response' peer hcall hanswer =>
      split at h
      · next heq =>
        cases h
        exact ⟨now, draw, peer, heq ▸ hcall, hanswer⟩
      · exact (nomatch h)
    · exact (nomatch h)
  · rintro ⟨now, draw, peer, hcall, hanswer⟩
    rw [hcall, hanswer]
    exact if_pos rfl

theorem responds_of_accepted (h : e.accepted s = some response) : e.responds s = true := by
  obtain ⟨now, draw, peer, hcall, -⟩ := accepted_eq_some_iff.mp h
  unfold responds
  rw [hcall]
  exact decide_eq_true rfl

theorem concerns_of_responds (h : e.responds s = true) : e.concerns s = true := by
  unfold responds at h
  unfold concerns
  split at h
  · next hcall =>
    rw [hcall]
    exact h
  · exact (nomatch h)

/-- A call issues a nonce for one service only. -/
theorem eq_of_issued {nonce nonce' : Bytes} (h : e.issued s = some nonce)
    (h' : e.issued s' = some nonce') : s = s' := by
  unfold issued at h h'
  split at h
  · next now draw t challenge hcall hanswer =>
    rw [hcall, hanswer] at h'
    dsimp only at h'
    split at h
    · next heq =>
      split at h'
      · next heq' => exact heq.symm.trans heq'
      · exact (nomatch h')
    · exact (nomatch h)
  · exact (nomatch h)

/-- A call that accepts a response accepts one, for one service. -/
theorem eq_of_accepted {response' : Bytes} (h : e.accepted s = some response)
    (h' : e.accepted s' = some response') : s = s' ∧ response = response' := by
  obtain ⟨now, draw, peer, hcall, -⟩ := accepted_eq_some_iff.mp h
  obtain ⟨now', draw', peer', hcall', -⟩ := accepted_eq_some_iff.mp h'
  cases hcall.symm.trans hcall'
  exact ⟨rfl, rfl⟩

end Event

/-! ## The challenge of a response -/

variable {a : Authenticator} {s response : Bytes}

/-- With a nonce at hand, a challenge for a known service is issued. -/
theorem issued_step_createChallenge (c : Conn) (now : Instant) {draw : Draw}
    (hs : s ∈ a.knownServices) (hdraw : ∃ b, draw = .ok b) :
    (((machine Conn).step a (c, .createChallenge now draw s)).1.issued s).isSome = true := by
  obtain ⟨b, rfl⟩ := hdraw
  show (Event.issued ⟨c, _, .challenge (a.createChallenge now (.ok b) s).1⟩ s).isSome = true
  unfold createChallenge Event.issued
  rw [if_neg (not_not.mpr hs)]
  dsimp only
  rw [if_pos rfl]
  rfl

/-- After that its nonce is pending. -/
theorem pendingNonce_step_createChallenge (c : Conn) (now : Instant)
    (b : { b : Bytes // b.length = 32 }) (hs : s ∈ a.knownServices) :
    ((machine Conn).step a (c, .createChallenge now (.ok b) s)).2.pendingNonce s = some b.1 := by
  show (a.createChallenge now (.ok b) s).2.pendingNonce s = some b.1
  unfold createChallenge
  rw [if_neg (not_not.mpr hs)]
  exact (pendingNonce_insert a s s _).trans (if_pos rfl)

section Run

variable {secret : Bytes} {known : Finmap (fun _ : Bytes => List Bytes)}
  {calls : List (Conn × Call)}

/-- Every entry of the log was written in a state that was reached. -/
theorem exists_of_mem_answers {e : Event Conn}
    (he : e ∈ (machine Conn).answers (new secret known) calls) :
    ∃ calls₁ i, i ∈ calls
      ∧ ((machine Conn).step ((machine Conn).after (new secret known) calls₁) i).1 = e := by
  obtain ⟨log₁, log₂, hlog⟩ := List.append_of_mem he
  obtain ⟨calls₁, i, calls₂, rfl, -, hi⟩ := Machine.exists_of_answers_eq hlog
  exact ⟨calls₁, i, List.mem_append_right _ List.mem_cons_self, hi⟩

/-- A call for a known service either responds or issues a nonce. -/
theorem concerns_eq_false (hdraws : NoncesDrawn calls) (hs : s ∈ known) {e : Event Conn}
    (he : e ∈ (machine Conn).answers (new secret known) calls)
    (hissued : e.issued s = none) (hresponds : e.responds s = false) : e.concerns s = false := by
  obtain ⟨calls₁, ⟨c, call⟩, hmem, rfl⟩ := exists_of_mem_answers he
  have hserves := Machine.after_invariant (m := machine Conn) serves_step
    (serves_new secret known) calls₁
  cases call with
  | createChallenge now draw s' =>
    refine decide_eq_false fun heq => ?_
    subst heq
    have hsome := issued_step_createChallenge c now (hserves.services.symm ▸ hs)
      (hdraws c now draw s' hmem)
    rw [hissued] at hsome
    exact (nomatch hsome)
  | verifyResponse now draw s' response => exact hresponds
  | authenticate now draw s' => rfl
  | setSessionTTL ttl => rfl
  | revokeSession token => rfl
  | cleanupExpired now => rfl

/-- **A response that is accepted has its challenge.** -/
theorem exists_answers (hdraws : NoncesDrawn calls) {j : ℕ}
    (h : AcceptedAt ((machine Conn).answers (new secret known) calls) s response j) :
    ∃ i, Answers secret known ((machine Conn).answers (new secret known) calls) s response i j := by
  obtain ⟨e, he, haccepted⟩ := h
  obtain ⟨calls₁, ⟨c, call⟩, calls₂, hcalls, htake, rfl⟩ := Machine.exists_of_getElem?_answers he
  obtain ⟨now, draw, peer, rfl, hanswer⟩ := Event.accepted_eq_some_iff.mp haccepted
  -- what was pending before the call is the nonce that was issued last
  obtain ⟨-, nonce, hpending, hresponse⟩ := step_verifyResponse_iff.mp ⟨peer, hanswer⟩
  rw [sharedSecret_after] at hresponse
  have hserves := Machine.after_invariant (m := machine Conn) serves_step
    (serves_new secret known) calls₁
  have hs : s ∈ known := hserves.pending s (by rw [hpending]; exact Option.some_ne_none nonce)
  obtain ⟨c', l₁, e', l₂, hl, -, hissued, hlater⟩ :=
    (pendingNonce_after_iff secret known calls₁).mp hpending
  generalize hlog : (machine Conn).answers (new secret known) calls = log at he htake ⊢
  rw [htake] at hl
  have hget : ∀ k, k < j → log[k]? = (l₁ ++ e' :: l₂)[k]? := fun k hk => by
    rw [← hl, List.getElem?_take_of_lt hk]
  have hlt : l₁.length < j := by
    have hlength := congrArg List.length hl
    rw [List.length_take, List.length_append, List.length_cons] at hlength
    omega
  refine ⟨l₁.length, hlt, hs, ⟨e', nonce, ?_, hissued, hresponse⟩, fun k e hk hkj hke => ?_⟩
  · rw [hget _ hlt, List.getElem?_append_right (Nat.le_refl _), Nat.sub_self]
    rfl
  · have hmem : e ∈ l₂ := by
      rw [hget k hkj, List.getElem?_append_right (Nat.le_of_lt hk),
        ← Nat.succ_pred_eq_of_pos (Nat.sub_pos_of_lt hk), List.getElem?_cons_succ] at hke
      exact List.mem_of_getElem? hke
    have he : e ∈ (machine Conn).answers (new secret known) calls :=
      hlog ▸ List.mem_of_getElem? hke
    exact concerns_eq_false hdraws hs he (hlater e hmem).1 (hlater e hmem).2

/-- **A challenge is answered once**: of two responses that have one challenge, none
comes before the other. -/
theorem Answers.eq_of_eq {log : List (Event Conn)} {s' response' : Bytes} {i j j' : ℕ}
    (h : Answers secret known log s response i j) (hj : AcceptedAt log s response j)
    (h' : Answers secret known log s' response' i j') (hj' : AcceptedAt log s' response' j') :
    j = j' := by
  obtain ⟨e, nonce, he, hissued, -⟩ := h.issued
  obtain ⟨e', nonce', he', hissued', -⟩ := h'.issued
  cases he.symm.trans he'
  obtain rfl : s = s' := Event.eq_of_issued hissued hissued'
  -- the earlier response would lie between the challenge and the later one
  have hnlt : ∀ {response j response' j'}, AcceptedAt log s response j →
      Answers secret known log s response i j → Answers secret known log s response' i j' →
      ¬j < j' := by
    rintro response j response' j' ⟨e, he, haccepted⟩ h h' hlt
    have hfalse := h'.alone j e h.earlier hlt he
    rw [Event.concerns_of_responds (Event.responds_of_accepted haccepted)] at hfalse
    exact (nomatch hfalse)
  exact Nat.le_antisymm (Nat.le_of_not_lt (hnlt hj' h' h)) (Nat.le_of_not_lt (hnlt hj h h'))

/-- A response that is matched to a challenge comes after no other response to it. -/
theorem Answers.lt_of_responds {log : List (Event Conn)} {i j k : ℕ} {e : Event Conn}
    (h : Answers secret known log s response i j) (he : log[k]? = some e)
    (hresponds : e.responds s = true) (hk : k < j) : k < i := by
  refine Nat.lt_of_not_le fun hle => ?_
  rcases Nat.eq_or_lt_of_le hle with rfl | hlt
  · obtain ⟨e', nonce, he', hissued, -⟩ := h.issued
    cases he.symm.trans he'
    rw [Event.responds_of_issued hissued] at hresponds
    exact (nomatch hresponds)
  · have hfalse := h.alone k e hlt hk he
    rw [Event.concerns_of_responds hresponds] at hfalse
    exact (nomatch hfalse)

end Run

/-! ## Counting -/

/-- What a service may still be given a session for: at most one challenge. -/
def credit (s : Bytes) (a : Authenticator) : ℕ := if (a.pendingNonce s).isSome then 1 else 0

/-- **One call, and the credit of a service.** A session is paid for by the challenge
that was pending, and only a new challenge earns. -/
theorem credit_step (s : Bytes) (a : Authenticator) (i : Conn × Call) :
    (if (((machine Conn).step a i).1.accepted s).isSome then 1 else 0)
        + credit s ((machine Conn).step a i).2
      ≤ (if (((machine Conn).step a i).1.issued s).isSome then 1 else 0) + credit s a := by
  have hle : ∀ b : Bool, (if b then 1 else 0) ≤ 1 := by decide
  have hstep := pendingNonce_step s a i
  unfold credit
  cases haccepted : ((machine Conn).step a i).1.accepted s with
  | some response =>
    obtain ⟨now, draw, peer, hcall, hanswer⟩ := Event.accepted_eq_some_iff.mp haccepted
    obtain ⟨c, call⟩ := i
    cases hcall
    obtain ⟨-, nonce, hpending, -⟩ := step_verifyResponse_iff.mp ⟨peer, hanswer⟩
    rw [pendingNonce_step_verifyResponse, hpending]
    exact Nat.le_add_left _ _
  | none =>
    cases hissued : ((machine Conn).step a i).1.issued s with
    | some nonce => exact (Nat.zero_add _).trans_le ((hle _).trans (Nat.le_add_right _ _))
    | none =>
      unfold Event.setsPending at hstep
      rw [hissued] at hstep
      split at hstep
      · rw [hstep]
        exact Nat.zero_le _
      · rw [hstep]
        exact Nat.le_refl _

/-! ## The law -/

/-- **Challenges are single-use.** After any interleaving of calls, every response
that was accepted is matched to an earlier challenge for its service whose nonce it
is the HMAC-SHA256 of, with no other `CreateChallenge` or `VerifyResponse` for the
service in between; no two are matched to one challenge, and none to a challenge from
before another response for the service, which has used it up. Hence a service has
no more sessions for responses than challenges. -/
theorem challenge_single_use (secret : Bytes) (known : Finmap (fun _ : Bytes => List Bytes))
    (calls : List (Conn × Call)) (hdraws : NoncesDrawn calls) :
    let log := (machine Conn).answers (new secret known) calls
    (∃ challengeOf : ℕ → ℕ,
      (∀ s response j, AcceptedAt log s response j →
        Answers secret known log s response (challengeOf j) j)
      ∧ (∀ s response s' response' j j', AcceptedAt log s response j →
        AcceptedAt log s' response' j' → challengeOf j = challengeOf j' → j = j')
      ∧ ∀ s response i e j, log[i]? = some e → e.responds s = true → i < j →
        AcceptedAt log s response j → i < challengeOf j)
    ∧ ∀ s, log.countP (fun e => (e.accepted s).isSome)
        ≤ log.countP (fun e => (e.issued s).isSome) := by
  intro log
  have hexists : ∀ j, ∃ i, ∀ s response, AcceptedAt log s response j →
      Answers secret known log s response i j := by
    intro j
    by_cases h : ∃ s response, AcceptedAt log s response j
    · obtain ⟨s, response, h⟩ := h
      obtain ⟨i, hi⟩ := exists_answers hdraws h
      refine ⟨i, fun s' response' h' => ?_⟩
      obtain ⟨e, he, haccepted⟩ := h
      obtain ⟨e', he', haccepted'⟩ := h'
      cases he.symm.trans he'
      obtain ⟨rfl, rfl⟩ := Event.eq_of_accepted haccepted haccepted'
      exact hi
    · exact ⟨0, fun s response h' => absurd ⟨s, response, h'⟩ h⟩
  choose challengeOf hmatched using hexists
  refine ⟨⟨challengeOf, fun s response j => hmatched j s response, ?_, ?_⟩, fun s => ?_⟩
  · intro s response s' response' j j' hj hj' heq
    exact (hmatched j s response hj).eq_of_eq hj (heq ▸ hmatched j' s' response' hj') hj'
  · intro s response i e j he hresponds hij hj
    exact (hmatched j s response hj).lt_of_responds he hresponds hij
  · have hcount := (machine Conn).countP_answers_le (fun e => (e.accepted s).isSome)
      (fun e => (e.issued s).isSome) (credit s) (credit_step s) (new secret known) calls
    exact (Nat.le_add_right _ _).trans hcount

/-- A challenge, a wrong response, another challenge and the right response to it. -/
theorem challenge_single_use_retry :
    let response := hmacSha256 [0x6b] (List.replicate 32 2)
    let calls : List (ℕ × Call) :=
      [(0, .createChallenge 0 (constantDraw 1) [0x73]),
        (0, .verifyResponse 1 (constantDraw 8) [0x73] []),
        (0, .createChallenge 2 (constantDraw 2) [0x73]),
        (0, .verifyResponse 3 (constantDraw 9) [0x73] response)]
    let log := (machine ℕ).answers (new [0x6b] oneService) calls
    NoncesDrawn calls ∧ AcceptedAt log [0x73] response 3
      ∧ ∃ i, Answers [0x6b] oneService log [0x73] response i 3 := by
  intro response calls log
  have hdraws : NoncesDrawn calls := by
    intro c now draw s h
    simp only [calls, List.mem_cons, List.not_mem_nil, or_false, Prod.mk.injEq,
      Call.createChallenge.injEq, reduceCtorEq, and_false, false_or] at h
    rcases h with ⟨-, -, rfl, -⟩ | ⟨-, -, rfl, -⟩
    · exact ⟨_, rfl⟩
    · exact ⟨_, rfl⟩
  have hserves := Machine.after_invariant (m := machine ℕ) serves_step
    (serves_new [0x6b] oneService) (calls.take 2)
  have hknown : [0x73] ∈
      ((machine ℕ).after (new [0x6b] oneService) (calls.take 2)).knownServices := by
    rw [hserves.services]
    exact (Finmap.mem_singleton _ _ _).mpr rfl
  have hpending : ((machine ℕ).after (new [0x6b] oneService) (calls.take 3)).pendingNonce [0x73]
      = some (List.replicate 32 2) :=
    pendingNonce_step_createChallenge 0 2 ⟨List.replicate 32 2, List.length_replicate⟩ hknown
  have hsecret : ((machine ℕ).after (new [0x6b] oneService) (calls.take 3)).sharedSecret = [0x6b] :=
    sharedSecret_after _ _ _
  obtain ⟨peer, hpeer⟩ : ∃ peer, ((machine ℕ).step
      ((machine ℕ).after (new [0x6b] oneService) (calls.take 3))
      (0, .verifyResponse 3 (constantDraw 9) [0x73] response)).1.answer = .peer (.ok peer) :=
    step_verifyResponse_iff.mpr ⟨⟨_, rfl⟩, _, hpending, by rw [hsecret]⟩
  have haccepted : AcceptedAt log [0x73] response 3 :=
    ⟨_, rfl, Event.accepted_eq_some_iff.mpr ⟨3, constantDraw 9, peer, rfl, hpeer⟩⟩
  obtain ⟨challengeOf, hmatched, -⟩ := (challenge_single_use [0x6b] oneService calls hdraws).1
  exact ⟨hdraws, haccepted, challengeOf 3, hmatched _ _ _ haccepted⟩

end Authenticator
