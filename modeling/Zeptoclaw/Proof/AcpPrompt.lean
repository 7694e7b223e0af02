import Zeptoclaw.Lib.History
import Zeptoclaw.Lib.Run
import Zeptoclaw.Spec.Acp

/-!
# Prompts of the ACP channel and their responses

When the prompts of the channel are answered once (`AnsweredOnce`), and the few things that an
event can do to them: `Keeps` has those that keep them so, `Breaks` the others. `Consistent` is
kept by all.
-/

namespace Zeptoclaw

namespace AcpChannel

variable {cfg : AcpChannelConfig} {parse : AcpParse} {c c' : AcpChannel}

/-! ## The property -/

/-- The prompt is in the table. -/
def Awaits (c : AcpChannel) (n : ℕ) (a : AcceptedPrompt) : Prop :=
  ∃ p, c.state.pending.lookup a.sessionId = some p ∧ p.number = n

/-- The prompt is pending and has no response, or it is not and has one response, with its id. -/
def Settled (c : AcpChannel) (n : ℕ) (a : AcceptedPrompt) : Prop :=
  (c.Awaits n a ∧ completions n c.stdout = []) ∨
    (¬ c.Awaits n a ∧ ∃ r, completions n c.stdout = [r] ∧ r.id = some a.requestId)

/-- Every accepted prompt is answered once, a session has at most one without an answer, and the
sessions of pending prompts are live. -/
structure AnsweredOnce (c : AcpChannel) : Prop where
  settled : ∀ n a, c.accepted[n]? = some a → c.Settled n a
  single : ∀ n m a b, c.accepted[n]? = some a → c.accepted[m]? = some b → a.sessionId = b.sessionId →
    completions n c.stdout = [] → completions m c.stdout = [] → n = m
  live : ∀ sessionId p, c.state.pending.lookup sessionId = some p → c.state.isLive sessionId = true

/-- What holds in every state, whatever happens: the entries of the table are accepted prompts of
live sessions, and the prompt that waits for the bus has no other one beside it. -/
structure Consistent (c : AcpChannel) : Prop where
  pending : ∀ sessionId p, c.state.pending.lookup sessionId = some p → c.accepted[p.number]? = some ⟨sessionId, p.requestId⟩
  live : ∀ sessionId p, c.state.pending.lookup sessionId = some p → c.state.isLive sessionId = true
  answered : ∀ n, c.accepted.length ≤ n → completions n c.stdout = []
  publishing : ∀ p, c.publishing = some p → c.accepted[p.number]? = some ⟨p.sessionId, p.requestId⟩ ∧
    ∀ q, c.state.pending.lookup p.sessionId = some q → q.number = p.number

theorem answeredOnce_of_settled (h : c.Consistent) (hsettled : ∀ n a, c.accepted[n]? = some a → c.Settled n a) :
    c.AnsweredOnce := by
  refine ⟨hsettled, ?_, h.live⟩
  intro n m a b ha hb hsame hn hm
  -- without a response both are in the table, under one session
  have hawaits : ∀ k x, c.accepted[k]? = some x → completions k c.stdout = [] → c.Awaits k x := by
    intro k x hx hk
    rcases hsettled k x hx with ⟨hin, -⟩ | ⟨-, r, hr, -⟩
    · exact hin
    · rw [hk] at hr
      cases hr
  obtain ⟨p, hp, rfl⟩ := hawaits n a ha hn
  obtain ⟨q, hq, rfl⟩ := hawaits m b hb hm
  rw [hsame, hq] at hp
  cases hp
  rfl

/-! ## What an event does to the prompts -/

theorem completions_append (n : ℕ) (stdout rest : List Written) :
    completions n (stdout ++ rest) = completions n stdout ++ completions n rest := List.filterMap_append

/-- What identifies a pending prompt. -/
def PendingPrompt.identity (p : PendingPrompt) : Json × ℕ := (p.requestId, p.number)

/-- Nothing happens to the prompts. -/
structure Quiet (c c' : AcpChannel) : Prop where
  pending : ∀ sessionId, (c'.state.pending.lookup sessionId).map PendingPrompt.identity =
    (c.state.pending.lookup sessionId).map PendingPrompt.identity
  live : ∀ sessionId p, c.state.pending.lookup sessionId = some p → c.state.isLive sessionId = true →
    c'.state.isLive sessionId = true
  completions : ∀ n, completions n c'.stdout = completions n c.stdout
  accepted : c'.accepted = c.accepted
  publishing : c'.publishing = c.publishing ∨ c'.publishing = none

/-- A pending prompt is taken out and answered. -/
structure Completes (c c' : AcpChannel) (sessionId : Str) (p : PendingPrompt) : Prop where
  pending : c.state.pending.lookup sessionId = some p
  erased : c'.state.pending = c.state.pending.erase sessionId
  live : ∀ sessionId, c'.state.isLive sessionId = c.state.isLive sessionId
  completions : ∃ r, r.id = some p.requestId ∧
    ∀ n, completions n c'.stdout = completions n c.stdout ++ if p.number = n then [r] else []
  accepted : c'.accepted = c.accepted
  publishing : c'.publishing = c.publishing ∨ c'.publishing = none

/-- A prompt is put into the table. -/
structure Accepts (c c' : AcpChannel) (sessionId : Str) (id : Json) : Prop where
  fresh : c.state.pending.lookup sessionId = none
  live : c.state.isLive sessionId = true
  pending : c'.state.pending = c.state.pending.insert sessionId ⟨id, false, c.accepted.length⟩
  sessions : ∀ sessionId, c'.state.isLive sessionId = c.state.isLive sessionId
  stdout : c'.stdout = c.stdout
  accepted : c'.accepted = c.accepted ++ [⟨sessionId, id⟩]
  publishing : ∀ p, c'.publishing = some p → p.sessionId = sessionId ∧ p.requestId = id ∧ p.number = c.accepted.length

/-- All pending prompts are taken out and answered. -/
structure Drains (c c' : AcpChannel) : Prop where
  pending : c'.state.pending = ∅
  completions : ∀ n, completions n c'.stdout = completions n c.stdout ++
    completions n (c.state.pending.pairs.map fun e =>
      .response (some e.2.number) ⟨some e.2.requestId, .promptDone "cancelled".toList⟩)
  accepted : c'.accepted = c.accepted
  publishing : c'.publishing = none

/-- A pending prompt is taken out without an answer. -/
structure Drops (c c' : AcpChannel) (sessionId : Str) : Prop where
  pending : (c.state.pending.lookup sessionId).isSome = true
  dropped : c'.state.pending.lookup sessionId = none
  kept : ∀ sessionId p, c'.state.pending.lookup sessionId = some p →
    c.state.pending.lookup sessionId = some p ∧ c'.state.isLive sessionId = true
  completions : ∀ n, completions n c'.stdout = completions n c.stdout
  accepted : c'.accepted = c.accepted
  publishing : c'.publishing = c.publishing

/-- A prompt that was answered is answered once more. -/
structure Repeats (c c' : AcpChannel) (p : Publishing) : Prop where
  publishing : c.publishing = some p
  answered : c.state.pending.lookup p.sessionId = none
  pending : ∀ sessionId, c'.state.pending.lookup sessionId = c.state.pending.lookup sessionId
  live : ∀ sessionId, c'.state.isLive sessionId = c.state.isLive sessionId
  completions : ∃ r, ∀ n, completions n c'.stdout = completions n c.stdout ++ if p.number = n then [r] else []
  accepted : c'.accepted = c.accepted
  published : c'.publishing = none

/-- What an event does that meets the condition. -/
inductive Keeps (c c' : AcpChannel) : Prop where
  | quiet (h : Quiet c c')
  | completes (sessionId : Str) (p : PendingPrompt) (h : Completes c c' sessionId p)
  | accepts (sessionId : Str) (id : Json) (h : Accepts c c' sessionId id)
  | drains (h : Drains c c')

/-- What the others do. -/
inductive Breaks (c c' : AcpChannel) : Prop where
  | drops (sessionId : Str) (h : Drops c c' sessionId)
  | repeats (p : Publishing) (h : Repeats c c' p)

/-! ## The effects on the table and on the responses -/

namespace Quiet

variable (h : Quiet c c')

include h

theorem lookup {sessionId : Str} {p : PendingPrompt} (hp : c'.state.pending.lookup sessionId = some p) :
    ∃ q, c.state.pending.lookup sessionId = some q ∧ q.requestId = p.requestId ∧ q.number = p.number := by
  have hsame := h.pending sessionId
  rw [hp, Option.map_some] at hsame
  obtain ⟨q, hq, hid⟩ := Option.map_eq_some_iff.mp hsame.symm
  obtain ⟨hrequest, hnumber⟩ := Prod.mk.inj hid
  exact ⟨q, hq, hrequest, hnumber⟩

theorem lookup_back {sessionId : Str} {p : PendingPrompt} (hp : c.state.pending.lookup sessionId = some p) :
    ∃ q, c'.state.pending.lookup sessionId = some q ∧ q.number = p.number := by
  have hsame := h.pending sessionId
  rw [hp, Option.map_some] at hsame
  obtain ⟨q, hq, hid⟩ := Option.map_eq_some_iff.mp hsame
  exact ⟨q, hq, (Prod.mk.inj hid).2⟩

theorem awaits_iff (n : ℕ) (a : AcceptedPrompt) : c'.Awaits n a ↔ c.Awaits n a := by
  constructor
  · rintro ⟨p, hp, rfl⟩
    obtain ⟨q, hq, -, hnumber⟩ := h.lookup hp
    exact ⟨q, hq, hnumber⟩
  · rintro ⟨p, hp, rfl⟩
    obtain ⟨q, hq, hnumber⟩ := h.lookup_back hp
    exact ⟨q, hq, hnumber⟩

theorem consistent (hc : c.Consistent) : c'.Consistent := by
  constructor
  · intro sessionId p hp
    obtain ⟨q, hq, hrequest, hnumber⟩ := h.lookup hp
    rw [h.accepted, ← hrequest, ← hnumber]
    exact hc.pending sessionId q hq
  · intro sessionId p hp
    obtain ⟨q, hq, -, -⟩ := h.lookup hp
    exact h.live sessionId q hq (hc.live sessionId q hq)
  · intro n hn
    rw [h.accepted] at hn
    rw [h.completions]
    exact hc.answered n hn
  · intro p hp
    rcases h.publishing with hsame | hnone
    · rw [hsame] at hp
      obtain ⟨haccepted, hnumber⟩ := hc.publishing p hp
      refine ⟨by rw [h.accepted]; exact haccepted, fun q hq => ?_⟩
      obtain ⟨q', hq', -, hsame⟩ := h.lookup hq
      rw [← hsame]
      exact hnumber q' hq'
    · rw [hnone] at hp
      cases hp

theorem settled {n : ℕ} {a : AcceptedPrompt} (hs : c.Settled n a) : c'.Settled n a := by
  unfold Settled
  rw [h.awaits_iff, h.completions]
  exact hs

end Quiet

namespace Completes

variable {sessionId : Str} {p : PendingPrompt} (h : Completes c c' sessionId p)

include h

theorem lookup {sid : Str} {q : PendingPrompt} (hq : c'.state.pending.lookup sid = some q) :
    sid ≠ sessionId ∧ c.state.pending.lookup sid = some q := by
  rw [h.erased, Assoc.lookup_erase] at hq
  split at hq
  · cases hq
  · next hne => exact ⟨hne, hq⟩

theorem consistent (hc : c.Consistent) : c'.Consistent := by
  constructor
  · intro sid q hq
    rw [h.accepted]
    exact hc.pending sid q (h.lookup hq).2
  · intro sid q hq
    rw [h.live]
    exact hc.live sid q (h.lookup hq).2
  · intro n hn
    rw [h.accepted] at hn
    obtain ⟨r, -, hr⟩ := h.completions
    have hne : p.number ≠ n := by
      have hlt := (List.getElem?_eq_some_iff.mp (hc.pending sessionId p h.pending)).1
      omega
    rw [hr n, hc.answered n hn, if_neg hne]
    rfl
  · intro q hq
    rcases h.publishing with hsame | hnone
    · rw [hsame] at hq
      obtain ⟨haccepted, hnumber⟩ := hc.publishing q hq
      refine ⟨by rw [h.accepted]; exact haccepted, fun q' hq' => hnumber q' (h.lookup hq').2⟩
    · rw [hnone] at hq
      cases hq

theorem settled (hc : c.Consistent) {n : ℕ} {a : AcceptedPrompt} (ha : c.accepted[n]? = some a) (hs : c.Settled n a) :
    c'.Settled n a := by
  obtain ⟨r, hid, hr⟩ := h.completions
  have hp := hc.pending sessionId p h.pending
  by_cases hn : p.number = n
  · -- this is the prompt: it was pending without a response
    subst hn
    rw [hp] at ha
    cases ha
    have hawaits : c.Awaits p.number ⟨sessionId, p.requestId⟩ := ⟨p, h.pending, rfl⟩
    rcases hs with ⟨-, hnone⟩ | ⟨hnot, -⟩
    · refine .inr ⟨?_, r, ?_, hid⟩
      · rintro ⟨q, hq, -⟩
        exact (h.lookup hq).1 rfl
      · rw [hr, hnone, if_pos rfl]
        rfl
    · exact absurd hawaits hnot
  · have hcompletions : AcpChannel.completions n c'.stdout = AcpChannel.completions n c.stdout := by
      rw [hr, if_neg hn, List.append_nil]
    have hawaits : c'.Awaits n a ↔ c.Awaits n a := by
      constructor
      · rintro ⟨q, hq, hnumber⟩
        exact ⟨q, (h.lookup hq).2, hnumber⟩
      · rintro ⟨q, hq, hnumber⟩
        have hne : a.sessionId ≠ sessionId := by
          intro heq
          rw [heq, h.pending] at hq
          cases hq
          exact hn hnumber
        refine ⟨q, ?_, hnumber⟩
        rw [h.erased, Assoc.lookup_erase, if_neg hne]
        exact hq
    unfold Settled
    rw [hawaits, hcompletions]
    exact hs

end Completes

namespace Accepts

variable {sessionId : Str} {id : Json} (h : Accepts c c' sessionId id)

include h

theorem lookup {sid : Str} {p : PendingPrompt} (hp : c'.state.pending.lookup sid = some p) :
    (sid = sessionId ∧ p = ⟨id, false, c.accepted.length⟩) ∨ (sid ≠ sessionId ∧ c.state.pending.lookup sid = some p) := by
  rw [h.pending, Assoc.lookup_insert] at hp
  split at hp
  · next heq => exact .inl ⟨heq, (Option.some.inj hp).symm⟩
  · next hne => exact .inr ⟨hne, hp⟩

theorem accepted_new : c'.accepted[c.accepted.length]? = some ⟨sessionId, id⟩ := by
  rw [h.accepted]
  simp

theorem accepted_old {n : ℕ} {a : AcceptedPrompt} (ha : c.accepted[n]? = some a) : c'.accepted[n]? = some a := by
  have hlt := (List.getElem?_eq_some_iff.mp ha).1
  rw [h.accepted, List.getElem?_append_left hlt]
  exact ha

theorem consistent (hc : c.Consistent) : c'.Consistent := by
  constructor
  · intro sid p hp
    rcases h.lookup hp with ⟨rfl, rfl⟩ | ⟨-, hold⟩
    · exact h.accepted_new
    · exact h.accepted_old (hc.pending sid p hold)
  · intro sid p hp
    rw [h.sessions]
    rcases h.lookup hp with ⟨rfl, -⟩ | ⟨-, hold⟩
    · exact h.live
    · exact hc.live sid p hold
  · intro n hn
    rw [h.accepted, List.length_append, List.length_singleton] at hn
    rw [h.stdout]
    exact hc.answered n (by omega)
  · intro p hp
    obtain ⟨hsession, hid, hnumber⟩ := h.publishing p hp
    refine ⟨?_, fun q hq => ?_⟩
    · rw [hsession, hid, hnumber]
      exact h.accepted_new
    · rw [hsession] at hq
      rcases h.lookup hq with ⟨-, rfl⟩ | ⟨hne, -⟩
      · exact hnumber.symm
      · exact absurd rfl hne

theorem settled (hc : c.Consistent) (hs : ∀ n a, c.accepted[n]? = some a → c.Settled n a) {n : ℕ} {a : AcceptedPrompt}
    (ha : c'.accepted[n]? = some a) : c'.Settled n a := by
  rcases Nat.lt_trichotomy n c.accepted.length with hlt | rfl | hgt
  · rw [h.accepted, List.getElem?_append_left hlt] at ha
    have hawaits : c'.Awaits n a ↔ c.Awaits n a := by
      constructor
      · rintro ⟨p, hp, hnumber⟩
        rcases h.lookup hp with ⟨-, rfl⟩ | ⟨-, hold⟩
        · simp only at hnumber
          omega
        · exact ⟨p, hold, hnumber⟩
      · rintro ⟨p, hp, hnumber⟩
        have hne : a.sessionId ≠ sessionId := by
          intro heq
          rw [heq, h.fresh] at hp
          cases hp
        refine ⟨p, ?_, hnumber⟩
        rw [h.pending, Assoc.lookup_insert, if_neg hne]
        exact hp
    unfold Settled
    rw [hawaits, h.stdout]
    exact hs n a ha
  · rw [h.accepted_new] at ha
    cases ha
    refine .inl ⟨⟨⟨id, false, c.accepted.length⟩, ?_, rfl⟩, ?_⟩
    · rw [h.pending, Assoc.lookup_insert, if_pos rfl]
    · rw [h.stdout]
      exact hc.answered _ le_rfl
  · have hlen := (List.getElem?_eq_some_iff.mp ha).1
    rw [h.accepted, List.length_append, List.length_singleton] at hlen
    omega

end Accepts

/-- The responses of the end of the input to one prompt. -/
theorem drained_completions (hc : c.Consistent) {sessionId : Str} {p : PendingPrompt}
    (hp : c.state.pending.lookup sessionId = some p) :
    completions p.number (c.state.pending.pairs.map fun e =>
      .response (some e.2.number) ⟨some e.2.requestId, .promptDone "cancelled".toList⟩) =
      [⟨some p.requestId, .promptDone "cancelled".toList⟩] := by
  unfold completions
  rw [List.filterMap_map]
  refine filterMap_eq_singleton (Assoc.nodup_pairs _) (Assoc.mem_pairs.mpr hp) (if_pos rfl) ?_
  rintro ⟨sid, q⟩ he hne
  refine if_neg fun hnumber => hne ?_
  -- the number says which session it is
  have hq := Assoc.mem_pairs.mp he
  have haccepted := hc.pending sid q hq
  rw [hnumber, hc.pending sessionId p hp] at haccepted
  have hsid : sid = sessionId := (congrArg AcceptedPrompt.sessionId (Option.some.inj haccepted)).symm
  rw [hsid, hp] at hq
  rw [hsid, Option.some.inj hq]

theorem drained_completions_other {n : ℕ} (h : ∀ sessionId p, c.state.pending.lookup sessionId = some p → p.number ≠ n) :
    completions n (c.state.pending.pairs.map fun e =>
      .response (some e.2.number) ⟨some e.2.requestId, .promptDone "cancelled".toList⟩) = [] := by
  unfold completions
  rw [List.filterMap_map, List.filterMap_eq_nil_iff]
  rintro ⟨sessionId, p⟩ he
  exact if_neg (h sessionId p (Assoc.mem_pairs.mp he))

namespace Drains

variable (h : Drains c c')

include h

theorem consistent (hc : c.Consistent) : c'.Consistent := by
  constructor
  · intro sid p hp
    rw [h.pending] at hp
    cases hp
  · intro sid p hp
    rw [h.pending] at hp
    cases hp
  · intro n hn
    rw [h.accepted] at hn
    rw [h.completions, hc.answered n hn, drained_completions_other]
    · rfl
    · rintro sid p hp rfl
      have hlt := (List.getElem?_eq_some_iff.mp (hc.pending sid p hp)).1
      omega
  · intro p hp
    rw [h.publishing] at hp
    cases hp

theorem settled (hc : c.Consistent) {n : ℕ} {a : AcceptedPrompt} (ha : c.accepted[n]? = some a) (hs : c.Settled n a) :
    c'.Settled n a := by
  have hout : ¬ c'.Awaits n a := by
    rintro ⟨p, hp, -⟩
    rw [h.pending] at hp
    cases hp
  refine .inr ⟨hout, ?_⟩
  rcases hs with ⟨⟨p, hp, rfl⟩, hnone⟩ | ⟨hnot, r, hr, hid⟩
  · have haccepted := hc.pending _ p hp
    rw [ha] at haccepted
    refine ⟨⟨some p.requestId, .promptDone "cancelled".toList⟩, ?_, ?_⟩
    · rw [h.completions, hnone, drained_completions hc hp]
      rfl
    · rw [Option.some.inj haccepted]
  · refine ⟨r, ?_, hid⟩
    rw [h.completions, hr, drained_completions_other]
    · rfl
    · rintro sid p hp rfl
      have haccepted := hc.pending sid p hp
      rw [ha] at haccepted
      cases haccepted
      exact hnot ⟨p, hp, rfl⟩

end Drains

namespace Drops

variable {sessionId : Str} (h : Drops c c' sessionId)

include h

theorem consistent (hc : c.Consistent) : c'.Consistent := by
  constructor
  · intro sid p hp
    rw [h.accepted]
    exact hc.pending sid p (h.kept sid p hp).1
  · intro sid p hp
    exact (h.kept sid p hp).2
  · intro n hn
    rw [h.accepted] at hn
    rw [h.completions]
    exact hc.answered n hn
  · intro p hp
    rw [h.publishing] at hp
    obtain ⟨haccepted, hnumber⟩ := hc.publishing p hp
    exact ⟨by rw [h.accepted]; exact haccepted, fun q hq => hnumber q (h.kept _ q hq).1⟩

/-- The prompt that was dropped never gets a response from the table. -/
theorem not_answeredOnce (hc : c.Consistent) (hs : c.AnsweredOnce) : ¬ c'.AnsweredOnce := by
  intro hs'
  obtain ⟨p, hp⟩ := Option.isSome_iff_exists.mp h.pending
  have haccepted := hc.pending sessionId p hp
  have hnone : AcpChannel.completions p.number c'.stdout = [] := by
    rw [h.completions]
    rcases hs.settled _ _ haccepted with ⟨-, hnone⟩ | ⟨hnot, -⟩
    · exact hnone
    · exact absurd ⟨p, hp, rfl⟩ hnot
  rw [← h.accepted] at haccepted
  rcases hs'.settled _ _ haccepted with ⟨⟨q, hq, -⟩, -⟩ | ⟨-, r, hr, -⟩
  · rw [h.dropped] at hq
    cases hq
  · rw [hnone] at hr
    cases hr

end Drops

namespace Repeats

variable {p : Publishing} (h : Repeats c c' p)

include h

theorem consistent (hc : c.Consistent) : c'.Consistent := by
  constructor
  · intro sid q hq
    rw [h.pending] at hq
    rw [h.accepted]
    exact hc.pending sid q hq
  · intro sid q hq
    rw [h.pending] at hq
    rw [h.live]
    exact hc.live sid q hq
  · intro n hn
    rw [h.accepted] at hn
    obtain ⟨r, hr⟩ := h.completions
    have hne : p.number ≠ n := by
      have hlt := (List.getElem?_eq_some_iff.mp (hc.publishing p h.publishing).1).1
      omega
    rw [hr, hc.answered n hn, if_neg hne]
    rfl
  · intro q hq
    rw [h.published] at hq
    cases hq

theorem not_answeredOnce (hc : c.Consistent) (hs : c.AnsweredOnce) : ¬ c'.AnsweredOnce := by
  intro hs'
  have haccepted := (hc.publishing p h.publishing).1
  have hnot : ¬ c.Awaits p.number ⟨p.sessionId, p.requestId⟩ := by
    rintro ⟨q, hq, -⟩
    rw [h.answered] at hq
    cases hq
  obtain ⟨r, hr⟩ := h.completions
  have htwo := hr p.number
  rcases hs.settled _ _ haccepted with ⟨hin, -⟩ | ⟨-, first, hfirst, -⟩
  · exact absurd hin hnot
  · rw [hfirst, if_pos rfl] at htwo
    rw [← h.accepted] at haccepted
    rcases hs'.settled _ _ haccepted with ⟨-, hnone⟩ | ⟨-, only, honly, -⟩
    · rw [htwo] at hnone
      cases hnone
    · rw [htwo] at honly
      cases honly

end Repeats

theorem Keeps.consistent (h : Keeps c c') (hc : c.Consistent) : c'.Consistent := by
  cases h with
  | quiet h => exact h.consistent hc
  | completes sessionId p h => exact h.consistent hc
  | accepts sessionId id h => exact h.consistent hc
  | drains h => exact h.consistent hc

theorem Breaks.consistent (h : Breaks c c') (hc : c.Consistent) : c'.Consistent := by
  cases h with
  | drops sessionId h => exact h.consistent hc
  | repeats p h => exact h.consistent hc

theorem Keeps.answeredOnce (h : Keeps c c') (hc : c.Consistent) (hs : c.AnsweredOnce) : c'.AnsweredOnce := by
  refine answeredOnce_of_settled (h.consistent hc) fun n a ha => ?_
  cases h with
  | quiet h => exact h.settled (hs.settled n a (h.accepted ▸ ha))
  | completes sessionId p h => exact h.settled hc (h.accepted ▸ ha) (hs.settled n a (h.accepted ▸ ha))
  | accepts sessionId id h => exact h.settled hc hs.settled ha
  | drains h => exact h.settled hc (h.accepted ▸ ha) (hs.settled n a (h.accepted ▸ ha))

theorem Breaks.not_answeredOnce (h : Breaks c c') (hc : c.Consistent) (hs : c.AnsweredOnce) : ¬ c'.AnsweredOnce := by
  cases h with
  | drops sessionId h => exact h.not_answeredOnce hc hs
  | repeats p h => exact h.not_answeredOnce hc hs

end AcpChannel

end Zeptoclaw
