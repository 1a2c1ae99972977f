import Grafy.TextPartials

/-!
A reader of a running turn. It begins with the snapshot's text, or with nothing
before the first partial, and appends the partials it is given: one that starts
where its text ends. One that starts before is taken for a duplicate. A partial
that was buffered when the snapshot was taken, and went out together with text
that came later, starts before the snapshot's end as well, so it is passed over
and no gap is marked.
-/
namespace Grafy.TextPartials

open Fragments

structure PartialReply where
  turnId : ℕ
  messageId : ℕ
  text : List Char
  gap : Bool
deriving DecidableEq, Repr

/-- The reply after a delta, which carries what the partial carried. -/
def appendDelta (current : Option PartialReply) (delta : AgentTextPartial) : PartialReply :=
  let base := current.getD ⟨delta.turnId, delta.messageId, [], false⟩
  if base.turnId ≠ delta.turnId ∨ base.messageId ≠ delta.messageId ∨ base.gap then
    { base with gap := true }
  else if delta.offset < base.text.length then base
  else if delta.offset ≠ base.text.length then { base with gap := true }
  else { base with text := base.text ++ delta.text }

/-- The reply `sync` leaves: the active turn's snapshot, unless the answer is in the history,
and unless the reply it holds already goes on from that text. -/
def syncReply (provisional : Option PartialReply) (snapshot : Option AgentTurnSnapshot)
    (final : Bool) : Option PartialReply :=
  let next : Option PartialReply :=
    match snapshot with
    | none => none
    | some active =>
      match active.partialMessageId with
      | none => none
      | some messageId =>
        if final then none else some ⟨active.turnId, messageId, active.partialText, false⟩
  match next, provisional with
  | some reply, some held =>
    if !held.gap && decide (held.turnId = reply.turnId) &&
      decide (held.messageId = reply.messageId) && reply.text.isPrefixOf held.text
    then some held else some reply
  | _, _ => next

/-- The reply is marked, or its text is the received text up to a position. -/
def PartialReply.ExactTo (received : List Char) (reach : ℕ) (reply : PartialReply) : Prop :=
  reply.gap = true ∨ reply.text = received.take reach

/-- After every delta the reply is marked or exact, up to the largest `nextOffset` delivered
or what the reader began with. -/
def RepliesExact (received : List Char) :
    ℕ → Option PartialReply → List AgentTextPartial → Prop
  | _, _, [] => True
  | reach, reply, delta :: deltas =>
    (appendDelta reply delta).ExactTo received (max reach delta.nextOffset) ∧
      RepliesExact received (max reach delta.nextOffset) (some (appendDelta reply delta)) deltas

variable {T : Type*} {messageId turnId : ℕ} {reply : PartialReply} {received : List Char}
  {early later : List TurnStep}

/-- What a reader begins with: nothing, before anything was published, or the snapshot that
`sync` took for its reply. -/
inductive Begins (entry : RunningTurn T) : Option PartialReply → Prop
  | nothing : entry.coalescer.published = [] → Begins entry none
  | synced {provisional reply} : syncReply provisional (some entry.snapshot) false = some reply →
      reply.text = entry.snapshot.partialText → Begins entry (some reply)

def beganWith (reply : Option PartialReply) : ℕ := (reply.elim [] PartialReply.text).length

/-- What is published between two states of a turn. -/
def publishedSince (entry final : RunningTurn T) : List AgentTextPartial :=
  final.coalescer.published.drop entry.coalescer.published.length

/-- Text was buffered when the reader took its snapshot, more was accepted, and the partial
that holds both went out. -/
def Torn (o : Outside T) (entry : RunningTurn T) (later : List TurnStep)
    (reply : Option PartialReply) : Prop :=
  reply ≠ none ∧ entry.coalescer.buffer ≠ [] ∧ (∃ text, text ≠ [] ∧ .accept text ∈ later) ∧
    o.publishes entry.coalescer.emissions = true

/-! ### The reply as a reader of fragments -/

def PartialReply.reading (reply : PartialReply) : Reading Char := ⟨reply.text, reply.gap⟩

def readingOf : Option PartialReply → Reading Char
  | none => ⟨[], false⟩
  | some reply => reply.reading

def NamedReply (turnId messageId : ℕ) (reply : Option PartialReply) : Prop :=
  ∀ held, reply = some held → held.turnId = turnId ∧ held.messageId = messageId

theorem take_reading (reply : PartialReply) (delta : AgentTextPartial) :
    reply.reading.take delta.fragment =
      if reply.gap then reply.reading
      else if delta.offset < reply.text.length then reply.reading
      else if delta.offset ≠ reply.text.length then ⟨reply.text, true⟩
      else ⟨reply.text ++ delta.text, reply.gap⟩ := rfl

/-- On the deltas of its own message `appendDelta` is the reader's step. -/
theorem appendDelta_reading {reply : Option PartialReply}
    (hreply : NamedReply turnId messageId reply) {delta : AgentTextPartial}
    (hturn : delta.turnId = turnId) (hmessage : delta.messageId = messageId) :
    (appendDelta reply delta).reading = (readingOf reply).take delta.fragment ∧
      NamedReply turnId messageId (some (appendDelta reply delta)) := by
  have hbase : ∃ base, base = reply.getD ⟨delta.turnId, delta.messageId, [], false⟩ ∧
      base.turnId = turnId ∧ base.messageId = messageId ∧ base.reading = readingOf reply := by
    cases reply with
    | none => exact ⟨_, rfl, hturn, hmessage, rfl⟩
    | some held => exact ⟨held, rfl, (hreply held rfl).1, (hreply held rfl).2, rfl⟩
  obtain ⟨base, hbase, hbaseTurn, hbaseMessage, hreading⟩ := hbase
  have hsame : ¬ (base.turnId ≠ delta.turnId ∨ base.messageId ≠ delta.messageId) := by
    rw [hbaseTurn, hbaseMessage, hturn, hmessage]
    simp
  rw [← hreading, take_reading]
  unfold appendDelta
  rw [← hbase]
  simp only
  have hnamed : ∀ text gap, NamedReply turnId messageId
      (some { base with text := text, gap := gap }) := by
    intro text gap held hheld
    cases hheld
    exact ⟨hbaseTurn, hbaseMessage⟩
  by_cases hgap : base.gap = true
  · rw [if_pos (Or.inr (Or.inr hgap)), if_pos hgap]
    refine ⟨?_, hnamed _ _⟩
    rw [PartialReply.reading, PartialReply.reading, hgap]
  · rw [if_neg (by tauto), if_neg hgap]
    by_cases hbefore : delta.offset < base.text.length
    · rw [if_pos hbefore, if_pos hbefore]
      exact ⟨rfl, hnamed _ _⟩
    · rw [if_neg hbefore, if_neg hbefore]
      by_cases hat : delta.offset ≠ base.text.length
      · rw [if_pos hat, if_pos hat]
        exact ⟨rfl, hnamed _ _⟩
      · rw [if_neg hat, if_neg hat]
        exact ⟨rfl, hnamed _ _⟩

theorem repliesExact_iff {reach : ℕ} {reply : Option PartialReply} {ds : List AgentTextPartial}
    (hreply : NamedReply turnId messageId reply)
    (hds : ∀ d ∈ ds, d.turnId = turnId ∧ d.messageId = messageId) :
    RepliesExact received reach reply ds ↔
      ExactAfterEach received reach (readingOf reply) (ds.map AgentTextPartial.fragment) := by
  induction ds generalizing reach reply with
  | nil => exact Iff.rfl
  | cons d ds ih =>
    obtain ⟨hturn, hmessage⟩ := hds d List.mem_cons_self
    obtain ⟨hreading, hnamed⟩ := appendDelta_reading hreply hturn hmessage
    rw [RepliesExact, List.map_cons, ExactAfterEach, ← hreading,
      ih hnamed (fun e he => hds e (List.mem_cons_of_mem d he))]
    exact Iff.rfl

/-- What `sync` seeds the reply with. -/
theorem syncReply_seeded {provisional : Option PartialReply} {snapshot : AgentTurnSnapshot}
    (hmessage : snapshot.partialMessageId = some messageId)
    (h : syncReply provisional (some snapshot) false = some reply)
    (htext : reply.text = snapshot.partialText) :
    reply = ⟨snapshot.turnId, messageId, snapshot.partialText, false⟩ := by
  simp only [syncReply, hmessage, Bool.false_eq_true, if_false] at h
  cases provisional with
  | none => exact (Option.some.inj h).symm
  | some held =>
    dsimp only at h
    split at h
    · next hheld =>
      rw [← Option.some.inj h] at htext ⊢
      simp only [Bool.and_eq_true, Bool.not_eq_true', decide_eq_true_eq] at hheld
      obtain ⟨⟨⟨hgap, hturn⟩, hmessage⟩, _⟩ := hheld
      cases held
      simp_all
    · exact (Option.some.inj h).symm

/-! ### The text a turn has received -/

theorem accepted_append (xs ys : List TurnStep) :
    TurnStep.accepted (xs ++ ys) = TurnStep.accepted xs ++ TurnStep.accepted ys := by
  induction xs with
  | nil => rfl
  | cons step xs ih => rw [List.cons_append, accepted_cons, ih, accepted_cons step xs,
      List.append_assoc]

theorem accepted_chunks (chunks : List (List Char)) :
    TurnStep.accepted (chunks.map .accept) = chunks.flatten := by
  induction chunks with
  | nil => rfl
  | cons text chunks ih => rw [List.map_cons, TurnStep.accepted, ih, List.flatten_cons]

theorem shown_chunks (chunks : List (List Char)) (text : List Char) :
    (chunks.map .accept).foldl TurnStep.shown text = text ++ chunks.flatten := by
  induction chunks generalizing text with
  | nil => simp
  | cons more chunks ih =>
    rw [List.map_cons, List.foldl_cons, ih, List.flatten_cons, TurnStep.shown, List.append_assoc]

theorem accepted_ne_nil_iff (steps : List TurnStep) :
    TurnStep.accepted steps ≠ [] ↔ ∃ text, text ≠ [] ∧ .accept text ∈ steps := by
  induction steps with
  | nil => simp [TurnStep.accepted]
  | cons step steps ih =>
    cases step with
    | accept text =>
      by_cases htext : text = []
      · rw [TurnStep.accepted, htext, List.nil_append, ih]
        simp only [List.mem_cons, TurnStep.accept.injEq]
        constructor
        · rintro ⟨other, hne, hmem⟩
          exact ⟨other, hne, Or.inr hmem⟩
        · rintro ⟨other, hne, hother | hmem⟩
          · exact absurd hother hne
          · exact ⟨other, hne, hmem⟩
      · refine iff_of_true ?_ ⟨text, htext, List.mem_cons_self⟩
        rw [TurnStep.accepted]
        exact fun hnil => htext (List.append_eq_nil_iff.mp hnil).1
    | complete answer | publishFinal => simpa [TurnStep.accepted] using ih

theorem shown_ending {text answer : List Char} {ending : List TurnStep}
    (h : ∀ step ∈ ending, step = .publishFinal ∨ step = .complete answer) :
    ending.foldl TurnStep.shown text = text ∨ ending.foldl TurnStep.shown text = answer := by
  induction ending generalizing text with
  | nil => exact Or.inl rfl
  | cons step ending ih =>
    have hrest : ∀ step ∈ ending, step = .publishFinal ∨ step = .complete answer := by
      intro other hother
      exact h other (List.mem_cons_of_mem step hother)
    rw [List.foldl_cons]
    rcases h step List.mem_cons_self with rfl | rfl
    · exact ih hrest
    · exact Or.inr ((ih hrest).elim id id)

/-- What is known of the texts at an instant of a turn: the text shown there is where the
final text begins, and it is what was streamed, or nothing is streamed any more. -/
structure TextsAt (early later : List TurnStep) (shown final : List Char) : Prop where
  streamed : TurnStep.accepted early ++ TurnStep.accepted later <+: final
  shown_prefix : shown <+: final
  shown_eq : shown = TurnStep.accepted early ∨
    TurnStep.accepted later = [] ∧ (TurnStep.accepted early).length ≤ shown.length

/-- The answer continues what was streamed, so every instant's text is where the final one
begins. -/
theorem textsAt {chunks : List (List Char)} {answer : Option (List Char)}
    (hanswer : ∀ text, answer = some text → chunks.flatten <+: text)
    (hturn : early ++ later = turnSteps chunks answer) :
    TextsAt early later (early.foldl TurnStep.shown [])
      (later.foldl TurnStep.shown (early.foldl TurnStep.shown [])) := by
  have hstreamed : TurnStep.accepted early ++ TurnStep.accepted later = chunks.flatten := by
    rw [← accepted_append, hturn, turnSteps, accepted_append, accepted_chunks]
    cases answer <;> simp [TurnStep.accepted]
  have hfinal : later.foldl TurnStep.shown (early.foldl TurnStep.shown []) =
      answer.getD chunks.flatten := by
    rw [← List.foldl_append, hturn, turnSteps, List.foldl_append, shown_chunks, List.nil_append]
    cases answer <;> simp [TurnStep.shown]
  have hprefix : chunks.flatten <+: answer.getD chunks.flatten := by
    cases answer with
    | none => exact List.prefix_rfl
    | some text => exact hanswer text rfl
  rw [hfinal]
  rcases List.append_eq_append_iff.mp hturn with ⟨rest, hchunks, hlater⟩ | ⟨ending, hearly, hrest⟩
  · -- Not all the chunks have been streamed.
    obtain ⟨before, after, rfl, hbefore, hafter⟩ := List.map_eq_append_iff.mp hchunks
    have haccepted : TurnStep.accepted early = before.flatten := by
      rw [← hbefore, accepted_chunks]
    have hshown : early.foldl TurnStep.shown [] = before.flatten := by
      rw [← hbefore, shown_chunks, List.nil_append]
    refine ⟨hstreamed ▸ hprefix, ?_, Or.inl (hshown.trans haccepted.symm)⟩
    rw [hshown]
    rw [List.flatten_append] at hprefix ⊢
    exact (List.prefix_append _ _).trans hprefix
  · -- All of them have: the text is theirs, or the answer has taken its place.
    have hnone : TurnStep.accepted ending = [] ∧ TurnStep.accepted later = [] := by
      rw [← List.append_eq_nil_iff, ← accepted_append, ← hrest]
      cases answer <;> simp [TurnStep.accepted]
    have haccepted : TurnStep.accepted early = chunks.flatten := by
      rw [hearly, accepted_append, accepted_chunks, hnone.1, List.append_nil]
    have hshown : early.foldl TurnStep.shown [] = chunks.flatten ∨
        early.foldl TurnStep.shown [] = answer.getD chunks.flatten := by
      rw [hearly, List.foldl_append, shown_chunks, List.nil_append]
      refine shown_ending ?_
      intro step hstep
      have hmem : step ∈ answer.toList.map .complete ++ [.publishFinal] := by
        rw [hrest]
        exact List.mem_append_left later hstep
      cases answer with
      | none => exact Or.inl (by simpa using hmem)
      | some text => simpa [or_comm] using hmem
    refine ⟨hstreamed ▸ hprefix, ?_, Or.inr ⟨hnone.2, ?_⟩⟩
    · rcases hshown with hshown | hshown
      · rw [hshown]
        exact hprefix
      · rw [hshown]
    · rw [haccepted]
      rcases hshown with hshown | hshown
      · rw [hshown]
      · rw [hshown]
        exact hprefix.length_le

/-! ### Mid-turn readers -/

variable {o : Outside T} {entry final : RunningTurn T} {sent : List AgentTextPartial}

/-- A published partial that straddles the text the reader began with: the reader's snapshot
was taken between buffering and flushing. -/
theorem straddles_iff_torn (hsound : Sound (TurnStep.accepted early) entry.coalescer)
    (hsent : Published o (TurnStep.accepted early) (TurnStep.accepted later) entry.coalescer
      final.coalescer sent) (hempty : final.coalescer.buffer = [])
    (htexts : TextsAt early later entry.receivedText final.receivedText)
    (hreply : reply.text = entry.receivedText) :
    (∃ d ∈ sent, d.fragment.Straddles (beganWith (some reply))) ↔
      Torn o entry later (some reply) := by
  have hbegan : beganWith (some reply) = entry.receivedText.length := by
    rw [← hreply]
    rfl
  have hlen := hsound.length_buffer
  rw [hbegan, Torn, ← accepted_ne_nil_iff]
  rcases htexts.shown_eq with hshown | ⟨hnone, hshort⟩
  · have hbuffer : entry.coalescer.publishedChars < (TurnStep.accepted early).length ↔
        entry.coalescer.buffer ≠ [] := by
      constructor
      · intro hlt hnil
        rw [hnil, List.flatten_nil, List.length_nil] at hlen
        omega
      · intro hne
        have hpos := List.length_pos_iff.mpr (hsound.flatten_ne_nil hne)
        omega
    rw [hshown, hsent.torn hempty _ hsound.le le_rfl, hbuffer]
    simp
  · refine iff_of_false ?_ ?_
    · rintro ⟨d, hd, hstraddles⟩
      have hwithin := (hsent.cut.mem (List.mem_map_of_mem hd)).2.within
      have hover := hstraddles.2
      rw [hnone, List.append_nil] at hwithin
      omega
    · rintro ⟨_, _, hmore, _⟩
      exact hmore hnone

/-- Over all deliveries: the replies are exact where no later partial straddles. -/
theorem exact_iff_of_following {began : ℕ} {seen : List AgentTextPartial}
    (reply : Option PartialReply)
    (hfollowing : Following received began (seen.map AgentTextPartial.fragment) (sent.map
      AgentTextPartial.fragment) began (readingOf reply))
    (hreply : NamedReply turnId messageId reply)
    (hnames : ∀ d ∈ seen ++ sent, d.turnId = turnId ∧ d.messageId = messageId)
    (hseen : ∀ d ∈ seen, ¬ d.fragment.Straddles began) :
    (∀ ds, Delivered seen sent ds → RepliesExact received began reply ds) ↔
      ¬ ∃ d ∈ sent, d.fragment.Straddles began := by
  have hseen' : ∀ f ∈ seen.map AgentTextPartial.fragment, ¬ f.Straddles began := by
    intro f hf
    obtain ⟨d, hd, rfl⟩ := List.mem_map.mp hf
    exact hseen d hd
  have hdelivery : ∀ ds, Delivered seen sent ds →
      (RepliesExact received began reply ds ↔ ∀ d ∈ ds, ¬ d.fragment.Straddles began) := by
    intro ds hds
    rw [repliesExact_iff hreply, hfollowing.exactAfterEach_iff hseen' (hds.map _),
      List.forall_mem_map]
    intro d hd
    rcases hds.mem hd with hd | hd
    · exact hnames d (List.mem_append_left _ hd)
    · exact hnames d (List.mem_append_right _ hd)
  constructor
  · rintro hexact ⟨d, hd, hstraddles⟩
    exact (hdelivery sent (Delivered.all seen sent)).mp (hexact _ (Delivered.all seen sent)) d hd
      hstraddles
  · intro hno ds hds
    refine (hdelivery ds hds).mpr ?_
    intro d hd hstraddles
    rcases hds.mem hd with hd | hd
    · exact hseen d hd hstraddles
    · exact hno ⟨d, hd, hstraddles⟩

theorem publishedSince_eq (h : final.coalescer.published = entry.coalescer.published ++ sent) :
    publishedSince entry final = sent := by
  rw [publishedSince, h, List.drop_left]

theorem begins_seeded (h : Begins entry (some reply)) :
    reply = ⟨entry.turnId, entry.messageId, entry.receivedText, false⟩ := by
  cases h with
  | synced hsync htext => exact syncReply_seeded (by rfl) hsync htext

/-- A turn streams any chunks, and a reader begins at any instant of it: with nothing before
the first partial, or with the snapshot's text. Whatever it is given again, after each partial
its text is exact or marked; except where the snapshot was taken while text was buffered,
more text was accepted, and the partial with both went out. -/
theorem reader_exact_iff (o : Outside T) (turnId messageId : ℕ) (chunks : List (List Char))
    (answer : Option (List Char))
    (hanswer : ∀ text, answer = some text → chunks.flatten <+: text)
    (early later : List TurnStep) (hturn : early ++ later = turnSteps chunks answer) :
    ∃ entry final : RunningTurn T, run o (.start turnId messageId) early = .ok entry ∧
      run o entry later = .ok final ∧
      ∀ reply, Begins entry reply →
        ((∀ ds, Delivered entry.coalescer.published (publishedSince entry final) ds →
            RepliesExact final.receivedText (beganWith reply) reply ds) ↔
          ¬ Torn o entry later reply) := by
  obtain ⟨final, hrun⟩ := run_turnSteps_ok o turnId messageId chunks answer
  have hkept := run_kept (kept_start turnId messageId) hrun
  have hempty : final.coalescer.buffer = [] := by
    rw [turnSteps, ← List.append_assoc, run_append] at hrun
    obtain ⟨mid, _, hlast⟩ := hrun
    refine hkept.drained ?_
    cases hlast
    exact AgentTextPartialCoalescer.closed_close o mid.partialBase mid.coalescer
  rw [← hturn, run_append] at hrun
  obtain ⟨entry, hearly, hlater⟩ := hrun
  refine ⟨entry, final, hearly, hlater, ?_⟩
  obtain ⟨before, hbefore⟩ := run_published sound_initial hearly
  have hsound := hbefore.sound
  rw [List.nil_append] at hsound
  obtain ⟨sent, hsent⟩ := run_published hsound hlater
  have hentry := run_kept (kept_start turnId messageId) hearly
  have htexts := textsAt hanswer hturn
  rw [show early.foldl TurnStep.shown [] = entry.receivedText from
    (run_receivedText hearly).symm, ← run_receivedText hlater] at htexts
  have hseen : Cut final.receivedText 0
      (entry.coalescer.published.map AgentTextPartial.fragment) :=
    hsound.cut.mono ((List.prefix_append _ _).trans htexts.streamed)
  have hrest : Cut final.receivedText entry.coalescer.publishedChars
      (sent.map AgentTextPartial.fragment) := hsent.cut.mono htexts.streamed
  have hstops : ∀ f ∈ entry.coalescer.published.map AgentTextPartial.fragment,
      f.stop ≤ entry.coalescer.publishedChars := by
    intro f hf
    obtain ⟨d, hd, rfl⟩ := List.mem_map.mp hf
    exact hsound.stops d hd
  rw [publishedSince_eq hsent.published]
  intro reply hbegins
  have hnames : ∀ d ∈ entry.coalescer.published ++ sent,
      d.turnId = turnId ∧ d.messageId = messageId := by
    rw [← hsent.published]
    exact hkept.named
  cases reply with
  | none =>
    have hnothing : entry.coalescer.published = [] := by
      cases hbegins with
      | nothing h => exact h
    rw [hnothing] at hseen hstops hnames ⊢
    have hfollowing := following_start (Nat.zero_le final.receivedText.length) hseen
      (fun f hf => nomatch hf) hstops hrest
    rw [show beganWith none = 0 from rfl,
      exact_iff_of_following none hfollowing (fun held hheld => nomatch hheld)
      hnames (fun d hd => nomatch hd)]
    refine not_congr (iff_of_false ?_ (fun htorn => htorn.1 rfl))
    rintro ⟨d, _, hstraddles⟩
    exact Nat.not_lt_zero _ hstraddles.1
  | some reply =>
    have hreply := begins_seeded hbegins
    have htext : reply.text = entry.receivedText := by rw [hreply]
    have hbegan : beganWith (some reply) = entry.receivedText.length := by
      rw [← htext]
      rfl
    have hwhole : readingOf (some reply) =
        ⟨final.receivedText.take (beganWith (some reply)), false⟩ := by
      rw [hbegan, ← List.prefix_iff_eq_take.mp htexts.shown_prefix, hreply]
      rfl
    have hsent_le : entry.coalescer.publishedChars ≤ beganWith (some reply) := by
      rw [hbegan]
      rcases htexts.shown_eq with hshown | ⟨_, hshort⟩
      · rw [hshown]
        exact hsound.le
      · exact hsound.le.trans hshort
    have hfollowing := following_start (by rw [hbegan]; exact htexts.shown_prefix.length_le)
      hseen (fun f hf => (hstops f hf).trans hsent_le) hstops hrest
    rw [← hwhole] at hfollowing
    rw [exact_iff_of_following (some reply) hfollowing ?_ hnames ?_,
      straddles_iff_torn hsound hsent hempty htexts htext]
    · intro held hheld
      rw [← Option.some.inj hheld, hreply]
      exact ⟨hentry.turn, hentry.message⟩
    · intro d hd hstraddles
      have hstop := hstops _ (List.mem_map_of_mem hd)
      have hover := hstraddles.2
      omega

/-- A clock that passes the interval on every second reading. -/
def everySecond : Outside ℕ where
  clock := id
  elapsed now last := decide (last + 2 ≤ now)
  publishes _ := true

theorem snapshot_reader_exact :
    ∃ entry final : RunningTurn ℕ,
      run everySecond (.start 1 2) [.accept ['a']] = .ok entry ∧
      run everySecond entry [.accept ['b'], .complete ['a', 'b', 'c'], .publishFinal] = .ok final ∧
      ∀ reply, Begins entry reply →
        ((∀ ds, Delivered entry.coalescer.published (publishedSince entry final) ds →
            RepliesExact final.receivedText (beganWith reply) reply ds) ↔
          ¬ Torn everySecond entry
            [.accept ['b'], .complete ['a', 'b', 'c'], .publishFinal] reply) := by
  refine reader_exact_iff everySecond 1 2 [['a'], ['b']] (some ['a', 'b', 'c']) ?_
    [.accept ['a']] [.accept ['b'], .complete ['a', 'b', 'c'], .publishFinal] rfl
  intro text htext
  cases htext
  exact ⟨['c'], rfl⟩

/-- The snapshot holds what is still buffered. What goes out next starts with that text, so the
reader drops it with the new text in it, and no gap is marked. -/
theorem buffered_text_dropped :
    ∃ (entry final : RunningTurn ℕ) (reply : PartialReply),
      run everySecond (.start 1 2) [.accept ['a'], .accept ['b']] = .ok entry ∧
      run everySecond entry [.accept ['c'], .publishFinal] = .ok final ∧
      Begins entry (some reply) ∧
      ¬ ∀ ds, Delivered entry.coalescer.published (publishedSince entry final) ds →
        RepliesExact final.receivedText (beganWith (some reply)) (some reply) ds := by
  have hsync : syncReply none (some ⟨1, ['a', 'b'], 1, some 2⟩) false =
      some ⟨1, 2, ['a', 'b'], false⟩ := rfl
  refine ⟨_, _, _, rfl, rfl, .synced hsync rfl, ?_⟩
  intro hexact
  rcases (hexact _ (Delivered.next Delivered.done)).1 with hmark | htext
  · exact absurd hmark (by decide)
  · exact absurd htext (by decide)

end Grafy.TextPartials
