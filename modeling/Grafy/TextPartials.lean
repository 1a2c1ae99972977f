import Grafy.Fragments

/-!
The text of a running turn. Every chunk the model streams is added to the turn's
text and offered to a coalescer, which publishes what it has buffered once its
interval has passed, as one partial that says where it starts. A snapshot shows
the whole text received, so it may be ahead of what was published. When the turn
completes, the run's own answer takes the place of the text, and what is still
buffered is published.
-/
namespace Grafy.TextPartials

open Fragments

/-- Streamed text that is not stored yet, with the turn and the message it belongs to. -/
structure AgentTextPartial where
  turnId : ℕ
  messageId : ℕ
  offset : ℕ
  text : List Char
deriving DecidableEq, Repr

namespace AgentTextPartial

def nextOffset (partialText : AgentTextPartial) : ℕ := partialText.offset + partialText.text.length

def fragment (partialText : AgentTextPartial) : Fragment Char :=
  ⟨partialText.offset, partialText.text⟩

end AgentTextPartial

/-- What the coalescer is given: the readings of its clock, one after the other, whether the
interval has passed between two of them, and whether a publication goes through. -/
structure Outside (T : Type*) where
  clock : ℕ → T
  elapsed : T → T → Bool
  publishes : ℕ → Bool

variable {T : Type*}

/-- The coalescer's own state, the number of times it read the clock and published, and the
partials that were published. -/
structure AgentTextPartialCoalescer (T : Type*) where
  buffer : List (List Char)
  publishedChars : ℕ
  lastPublishAt : Option T
  closed : Bool
  readings : ℕ
  emissions : ℕ
  published : List AgentTextPartial
deriving DecidableEq

namespace AgentTextPartialCoalescer

def initial : AgentTextPartialCoalescer T := ⟨[], 0, none, false, 0, 0, []⟩

/-- A publication that fails loses its partial and nothing else. -/
def emit (o : Outside T) (c : AgentTextPartialCoalescer T) (partialText : AgentTextPartial) :
    AgentTextPartialCoalescer T :=
  { c with
    emissions := c.emissions + 1
    published := if o.publishes c.emissions then c.published ++ [partialText] else c.published }

def flush (o : Outside T) (base : AgentTextPartial) (c : AgentTextPartialCoalescer T) :
    AgentTextPartialCoalescer T :=
  if c.buffer = [] then c
  else
    let text := c.buffer.flatten
    emit o
      { c with
        buffer := []
        publishedChars := c.publishedChars + text.length
        lastPublishAt := some (o.clock c.readings)
        readings := c.readings + 1 }
      { base with offset := c.publishedChars, text := text }

/-- Whether the interval has passed, and the coalescer after it looked. Before the first
publication it does not read the clock. -/
def intervalElapsed (o : Outside T) (c : AgentTextPartialCoalescer T) :
    Bool × AgentTextPartialCoalescer T :=
  match c.lastPublishAt with
  | none => (true, c)
  | some last => (o.elapsed (o.clock c.readings) last, { c with readings := c.readings + 1 })

def offer (o : Outside T) (base : AgentTextPartial) (text : List Char)
    (c : AgentTextPartialCoalescer T) : Except String (AgentTextPartialCoalescer T) :=
  if c.closed then .error "the partial coalescer is closed"
  else
    let looked := intervalElapsed o { c with buffer := c.buffer ++ [text] }
    .ok (if looked.1 then flush o base looked.2 else looked.2)

def close (o : Outside T) (base : AgentTextPartial) (c : AgentTextPartialCoalescer T) :
    AgentTextPartialCoalescer T :=
  if c.closed then c else flush o base { c with closed := true }

end AgentTextPartialCoalescer

/-- What a reader is told of a running turn. -/
structure AgentTurnSnapshot where
  turnId : ℕ
  partialText : List Char
  partialOffset : ℕ
  partialMessageId : Option ℕ
deriving DecidableEq, Repr

structure RunningTurn (T : Type*) where
  turnId : ℕ
  messageId : ℕ
  partialBase : AgentTextPartial
  coalescer : AgentTextPartialCoalescer T
  text : List (List Char)
  publishedChars : ℕ
deriving DecidableEq

namespace RunningTurn

def start (turnId messageId : ℕ) : RunningTurn T where
  turnId := turnId
  messageId := messageId
  partialBase := ⟨turnId, messageId, 0, []⟩
  coalescer := .initial
  text := []
  publishedChars := 0

def receivedText (entry : RunningTurn T) : List Char := entry.text.flatten

def snapshot (entry : RunningTurn T) : AgentTurnSnapshot where
  turnId := entry.turnId
  partialText := entry.receivedText
  partialOffset := entry.publishedChars
  partialMessageId := some entry.messageId

/-- The publication notes on the turn where its partial ends. -/
def accept (o : Outside T) (text : List Char) (entry : RunningTurn T) :
    Except String (RunningTurn T) :=
  if text = [] then .ok entry
  else
    (entry.coalescer.offer o entry.partialBase text).map fun coalescer =>
      { entry with
        text := entry.text ++ [text]
        coalescer := coalescer
        publishedChars := coalescer.publishedChars }

/-- The run's own answer is taken over the text that was streamed. -/
def complete (answer : List Char) (entry : RunningTurn T) : RunningTurn T :=
  { entry with text := [answer] }

def publishFinal (o : Outside T) (entry : RunningTurn T) : RunningTurn T :=
  let coalescer := entry.coalescer.close o entry.partialBase
  { entry with coalescer := coalescer, publishedChars := coalescer.publishedChars }

end RunningTurn

inductive TurnStep
  | accept (text : List Char)
  | complete (answer : List Char)
  | publishFinal
deriving DecidableEq

namespace TurnStep

def apply (o : Outside T) (entry : RunningTurn T) : TurnStep → Except String (RunningTurn T)
  | .accept text => entry.accept o text
  | .complete answer => .ok (entry.complete answer)
  | .publishFinal => .ok (entry.publishFinal o)

/-- The text that steps accept. -/
@[simp] def accepted : List TurnStep → List Char
  | [] => []
  | .accept text :: steps => text ++ accepted steps
  | .complete _ :: steps => accepted steps
  | .publishFinal :: steps => accepted steps

end TurnStep

def run (o : Outside T) : RunningTurn T → List TurnStep → Except String (RunningTurn T)
  | entry, [] => .ok entry
  | entry, step :: steps =>
    match step.apply o entry with
    | .error e => .error e
    | .ok next => run o next steps

/-- A turn: its chunks are streamed, the run's answer replaces them where the turn completes
with one, and what is buffered goes out. -/
def turnSteps (chunks : List (List Char)) (answer : Option (List Char)) : List TurnStep :=
  chunks.map .accept ++ (answer.toList.map .complete ++ [.publishFinal])

/-! ### What the coalescer keeps -/

/-- The buffer is what was streamed and not yet published, and what was published are pieces
of what was streamed, one after the other. -/
structure Sound (streamed : List Char) (c : AgentTextPartialCoalescer T) : Prop where
  le : c.publishedChars ≤ streamed.length
  buffered : streamed.drop c.publishedChars = c.buffer.flatten
  filled : ∀ text ∈ c.buffer, text ≠ []
  cut : Cut streamed 0 (c.published.map AgentTextPartial.fragment)
  stops : ∀ d ∈ c.published, d.nextOffset ≤ c.publishedChars

/-- Nothing was published, and no publication was tried. -/
structure Quiet (c c' : AgentTextPartialCoalescer T) : Prop where
  chars : c'.publishedChars = c.publishedChars
  emissions : c'.emissions = c.emissions
  published : c'.published = c.published

/-- Everything streamed so far went out, or was lost. -/
structure Flushed (o : Outside T) (streamed : List Char) (c c' : AgentTextPartialCoalescer T)
    (d : AgentTextPartial) : Prop where
  offset : d.offset = c.publishedChars
  stop : d.nextOffset = streamed.length
  piece : d.fragment.Of streamed
  chars : c'.publishedChars = streamed.length
  published : c'.published = c.published ++ if o.publishes c.emissions then [d] else []

/-- What a step does to the coalescer. -/
def Moved (o : Outside T) (streamed : List Char) (c c' : AgentTextPartialCoalescer T) : Prop :=
  Quiet c c' ∨ ∃ d, Flushed o streamed c c' d

theorem sound_initial : Sound [] (.initial : AgentTextPartialCoalescer T) := by
  refine ⟨le_rfl, rfl, ?_, trivial, ?_⟩ <;> · intro _ h; cases h

variable {o : Outside T} {base : AgentTextPartial} {streamed : List Char}
  {c c' : AgentTextPartialCoalescer T} {text : List Char} {final : RunningTurn T}
  {steps : List TurnStep} {mid : AgentTextPartialCoalescer T} {first grown : List Char}
  {sent : List AgentTextPartial}

theorem Sound.length_buffer (h : Sound streamed c) :
    c.publishedChars + c.buffer.flatten.length = streamed.length := by
  have hle := h.le
  rw [← h.buffered, List.length_drop]
  omega

theorem Sound.flatten_ne_nil (h : Sound streamed c) (hbuffer : c.buffer ≠ []) :
    c.buffer.flatten ≠ [] := by
  obtain ⟨text, htext⟩ := List.exists_mem_of_ne_nil _ hbuffer
  intro hflat
  exact h.filled text htext (List.flatten_eq_nil_iff.mp hflat text htext)

theorem Sound.add (h : Sound streamed c) (htext : text ≠ []) :
    Sound (streamed ++ text) { c with buffer := c.buffer ++ [text] } := by
  have hle := h.le
  refine ⟨?_, ?_, ?_, h.cut.mono (List.prefix_append _ _), h.stops⟩
  · exact hle.trans (by rw [List.length_append]; exact Nat.le_add_right _ _)
  · rw [List.drop_append_of_le_length hle, h.buffered, List.flatten_append,
      List.flatten_cons, List.flatten_nil, List.append_nil]
  · intro other hother
    rcases List.mem_append.mp hother with hother | hother
    · exact h.filled other hother
    · rw [List.mem_singleton.mp hother]
      exact htext

theorem Sound.flush (h : Sound streamed c) (o : Outside T) (base : AgentTextPartial) :
    Sound streamed (c.flush o base) ∧ Moved o streamed c (c.flush o base) := by
  unfold AgentTextPartialCoalescer.flush
  by_cases hbuffer : c.buffer = []
  · rw [if_pos hbuffer]
    exact ⟨h, Or.inl ⟨rfl, rfl, rfl⟩⟩
  rw [if_neg hbuffer]
  have hlen := h.length_buffer
  have hne := h.flatten_ne_nil hbuffer
  let d : AgentTextPartial := { base with offset := c.publishedChars, text := c.buffer.flatten }
  have hstop : d.nextOffset = streamed.length := hlen
  have hpiece : d.fragment.Of streamed := by
    refine ⟨hne, hstop.le, ?_⟩
    rw [show d.fragment.offset = c.publishedChars from rfl, h.buffered]
    exact (List.take_length).symm
  refine ⟨⟨hlen.le, ?_, ?_, ?_, ?_⟩, Or.inr ⟨d, rfl, hstop, hpiece, hlen, ?_⟩⟩
  · show streamed.drop (c.publishedChars + c.buffer.flatten.length) = _
    rw [hlen, List.drop_length]
    rfl
  · intro text htext
    cases htext
  · show Cut streamed 0 (List.map _ (if _ then _ else _))
    split
    · rw [List.map_append]
      refine h.cut.append ?_ (Nat.zero_le c.publishedChars) ⟨le_rfl, hpiece, trivial⟩
      intro f hf
      obtain ⟨e, he, rfl⟩ := List.mem_map.mp hf
      exact h.stops e he
    · exact h.cut
  · intro e he
    show e.nextOffset ≤ c.publishedChars + c.buffer.flatten.length
    rw [hlen]
    have hold : ∀ e ∈ c.published, e.nextOffset ≤ streamed.length := by
      intro e he
      exact (h.stops e he).trans h.le
    change e ∈ (if _ then _ else _) at he
    split at he
    · rcases List.mem_append.mp he with he | he
      · exact hold e he
      · rw [List.mem_singleton.mp he]
        exact hstop.le
    · exact hold e he
  · show (if _ then _ else _) = _
    split
    · rfl
    · rw [List.append_nil]

/-- What is offered is buffered, and the buffer goes out or stays. -/
theorem offer_cases (hoffer : c.offer o base text = .ok c') :
    c.closed = false ∧ ∃ readings,
      c' = { c with buffer := c.buffer ++ [text], readings := readings } ∨
      c' = AgentTextPartialCoalescer.flush o base
        { c with buffer := c.buffer ++ [text], readings := readings } := by
  unfold AgentTextPartialCoalescer.offer at hoffer
  split at hoffer
  · cases hoffer
  next hopen =>
  refine ⟨by simpa using hopen, ?_⟩
  cases hoffer
  unfold AgentTextPartialCoalescer.intervalElapsed
  split
  · exact ⟨c.readings, Or.inr rfl⟩
  · refine ⟨c.readings + 1, ?_⟩
    split
    · exact Or.inr rfl
    · exact Or.inl rfl

theorem Sound.offer (h : Sound streamed c) (htext : text ≠ [])
    (hoffer : c.offer o base text = .ok c') :
    Sound (streamed ++ text) c' ∧ Moved o (streamed ++ text) c c' := by
  have hadd := h.add htext
  obtain ⟨_, readings, hc'⟩ := offer_cases hoffer
  have hsound : Sound (streamed ++ text)
      { c with buffer := c.buffer ++ [text], readings := readings } :=
    ⟨hadd.le, hadd.buffered, hadd.filled, hadd.cut, hadd.stops⟩
  rcases hc' with rfl | rfl
  · exact ⟨hsound, Or.inl ⟨rfl, rfl, rfl⟩⟩
  · obtain ⟨hflush, hquiet | ⟨d, hd⟩⟩ := hsound.flush o base
    · exact ⟨hflush, Or.inl ⟨hquiet.chars, hquiet.emissions, hquiet.published⟩⟩
    · exact ⟨hflush, Or.inr ⟨d, hd.offset, hd.stop, hd.piece, hd.chars, hd.published⟩⟩

theorem Sound.close (h : Sound streamed c) :
    Sound streamed (c.close o base) ∧ Moved o streamed c (c.close o base) := by
  unfold AgentTextPartialCoalescer.close
  split
  · exact ⟨h, Or.inl ⟨rfl, rfl, rfl⟩⟩
  · have hclosed : Sound streamed { c with closed := true } :=
      ⟨h.le, h.buffered, h.filled, h.cut, h.stops⟩
    obtain ⟨hflush, hquiet | ⟨d, hd⟩⟩ := hclosed.flush o base
    · exact ⟨hflush, Or.inl ⟨hquiet.chars, hquiet.emissions, hquiet.published⟩⟩
    · exact ⟨hflush, Or.inr ⟨d, hd.offset, hd.stop, hd.piece, hd.chars, hd.published⟩⟩

namespace AgentTextPartialCoalescer

theorem closed_flush (o : Outside T) (base : AgentTextPartial)
    (c : AgentTextPartialCoalescer T) : (c.flush o base).closed = c.closed := by
  unfold flush
  split <;> rfl

theorem closed_close (o : Outside T) (base : AgentTextPartial)
    (c : AgentTextPartialCoalescer T) : (c.close o base).closed = true := by
  unfold close
  split
  · assumption
  · rw [closed_flush]

end AgentTextPartialCoalescer

/-! ### Runs of a turn -/

variable {step : TurnStep}

variable {entry next : RunningTurn T}

namespace RunningTurn

theorem apply_moved (h : Sound streamed entry.coalescer) (hstep : step.apply o entry = .ok next) :
    Sound (streamed ++ TurnStep.accepted [step]) next.coalescer ∧
      Moved o (streamed ++ TurnStep.accepted [step]) entry.coalescer next.coalescer := by
  cases step with
  | accept text =>
    rw [TurnStep.accepted, TurnStep.accepted, List.append_nil]
    change entry.accept o text = .ok next at hstep
    unfold accept at hstep
    split at hstep
    · next htext =>
      subst htext
      rw [← Except.ok.inj hstep, List.append_nil]
      exact ⟨h, Or.inl ⟨rfl, rfl, rfl⟩⟩
    · next htext =>
      cases hoffer : entry.coalescer.offer o entry.partialBase text with
      | error e =>
        rw [hoffer] at hstep
        cases hstep
      | ok c' =>
        rw [hoffer] at hstep
        cases hstep
        exact h.offer htext hoffer
  | complete answer =>
    rw [TurnStep.accepted, TurnStep.accepted, List.append_nil, ← Except.ok.inj hstep]
    exact ⟨h, Or.inl ⟨rfl, rfl, rfl⟩⟩
  | publishFinal =>
    rw [TurnStep.accepted, TurnStep.accepted, List.append_nil, ← Except.ok.inj hstep]
    exact h.close

/-- A step that accepts no text leaves the coalescer alone or closes it. -/
theorem apply_quiet {step : TurnStep} (hstep : step.apply o entry = .ok next)
    (hnone : TurnStep.accepted [step] = []) :
    next.coalescer = entry.coalescer ∨ next.coalescer.closed = true := by
  cases step with
  | accept text =>
    rw [TurnStep.accepted, TurnStep.accepted, List.append_nil] at hnone
    change entry.accept o text = .ok next at hstep
    rw [accept, if_pos hnone] at hstep
    cases hstep
    exact Or.inl rfl
  | complete answer =>
    cases hstep
    exact Or.inl rfl
  | publishFinal =>
    cases hstep
    exact Or.inr (AgentTextPartialCoalescer.closed_close o entry.partialBase entry.coalescer)

/-- A closed coalescer stays closed, and refuses text. -/
theorem apply_closed (hclosed : entry.coalescer.closed = true)
    (hstep : step.apply o entry = .ok next) :
    TurnStep.accepted [step] = [] ∧ next.coalescer.closed = true := by
  cases step with
  | accept text =>
    rw [TurnStep.accepted, TurnStep.accepted, List.append_nil]
    change entry.accept o text = .ok next at hstep
    unfold accept at hstep
    split at hstep
    · next htext =>
      cases hstep
      exact ⟨htext, hclosed⟩
    · rw [AgentTextPartialCoalescer.offer, if_pos hclosed] at hstep
      cases hstep
  | complete answer =>
    cases hstep
    exact ⟨rfl, hclosed⟩
  | publishFinal =>
    cases hstep
    exact ⟨rfl, AgentTextPartialCoalescer.closed_close o entry.partialBase entry.coalescer⟩

end RunningTurn

theorem accepted_cons (step : TurnStep) (steps : List TurnStep) :
    TurnStep.accepted (step :: steps) = TurnStep.accepted [step] ++ TurnStep.accepted steps := by
  cases step <;> simp [TurnStep.accepted]

/-- What a run publishes: pieces of what it streams, from where it stands on. -/
structure Published (o : Outside T) (streamed grown : List Char)
    (c c' : AgentTextPartialCoalescer T) (sent : List AgentTextPartial) : Prop where
  published : c'.published = c.published ++ sent
  sound : Sound (streamed ++ grown) c'
  cut : Cut (streamed ++ grown) c.publishedChars (sent.map AgentTextPartial.fragment)
  torn : c'.buffer = [] → ∀ position, c.publishedChars ≤ position →
    position ≤ streamed.length →
      ((∃ d ∈ sent, d.fragment.Straddles position) ↔ c.publishedChars < position ∧
        (position < streamed.length ∨ grown ≠ []) ∧ o.publishes c.emissions = true)

/-- A run that begins with a step that publishes nothing. -/
theorem Published.of_quiet (hquiet : Quiet c mid)
    (h : Published o (streamed ++ first) grown mid c' sent) :
    Published o streamed (first ++ grown) c c' sent := by
  refine ⟨by rw [h.published, hquiet.published], ?_, ?_, ?_⟩
  · rw [← List.append_assoc]
    exact h.sound
  · rw [← List.append_assoc, ← hquiet.chars]
    exact h.cut
  · intro hempty position hfrom hto
    have htorn := h.torn hempty position (by rw [hquiet.chars]; exact hfrom)
      (hto.trans (by rw [List.length_append]; exact Nat.le_add_right _ _))
    rw [htorn, hquiet.chars, hquiet.emissions]
    have hgrown : position < (streamed ++ first).length ∨ grown ≠ [] ↔
        position < streamed.length ∨ first ++ grown ≠ [] := by
      rw [List.length_append, ← List.length_pos_iff, ← List.length_pos_iff, List.length_append]
      omega
    rw [hgrown]

/-- A run that begins with a step that publishes what was streamed. -/
theorem Published.of_flushed {d : AgentTextPartial}
    (hflushed : Flushed o (streamed ++ first) c mid d) (hlast : first = [] → grown = [])
    (h : Published o (streamed ++ first) grown mid c' sent) :
    Published o streamed (first ++ grown) c c'
      ((if o.publishes c.emissions then [d] else []) ++ sent) := by
  have hprefix : streamed ++ first <+: streamed ++ (first ++ grown) := by
    rw [← List.append_assoc]
    exact List.prefix_append _ _
  have hstop : d.fragment.stop = (streamed ++ first).length := hflushed.stop
  have hlt := hflushed.piece.offset_lt
  have hoffset : d.fragment.offset = c.publishedChars := hflushed.offset
  have hcut := h.cut
  rw [hflushed.chars, List.append_assoc] at hcut
  refine ⟨by rw [h.published, hflushed.published, List.append_assoc], ?_, ?_, ?_⟩
  · rw [← List.append_assoc]
    exact h.sound
  · split
    · refine ⟨hoffset.ge, hflushed.piece.mono hprefix, ?_⟩
      rw [hstop]
      exact hcut
    · exact hcut.of_le (by omega)
  · intro _ position hfrom hto
    -- What is published later starts behind the position, so only this partial counts.
    have hlater : ∀ e ∈ sent, ¬ e.fragment.Straddles position := by
      intro e he hstraddles
      have hfrom := (hcut.mem (List.mem_map_of_mem he)).1
      have hbefore := hstraddles.1
      rw [List.length_append] at hfrom
      omega
    have hthis : d.fragment.Straddles position ↔ c.publishedChars < position ∧
        (position < streamed.length ∨ first ++ grown ≠ []) := by
      rw [Fragment.Straddles, hoffset, hstop, List.length_append]
      refine and_congr_right (fun _ => ?_)
      constructor
      · intro hbehind
        by_cases hfirst : first = []
        · rw [hfirst, List.length_nil] at hbehind
          exact Or.inl hbehind
        · exact Or.inr (fun hnil => hfirst (List.append_eq_nil_iff.mp hnil).1)
      · rintro (hshort | hmore)
        · omega
        · have hfirst : first ≠ [] := by
            intro hfirst
            exact hmore (List.append_eq_nil_iff.mpr ⟨hfirst, hlast hfirst⟩)
          have hpos := List.length_pos_iff.mpr hfirst
          omega
    rw [← and_assoc, ← hthis]
    constructor
    · rintro ⟨e, he, hstraddles⟩
      rcases List.mem_append.mp he with he | he
      · split at he
        · rw [List.mem_singleton.mp he] at hstraddles
          exact ⟨hstraddles, by assumption⟩
        · cases he
      · exact absurd hstraddles (hlater e he)
    · rintro ⟨hstraddles, hpublishes⟩
      rw [if_pos hpublishes]
      exact ⟨d, List.mem_append_left sent List.mem_cons_self, hstraddles⟩

theorem run_closed {entry : RunningTurn T} (hclosed : entry.coalescer.closed = true)
    (hrun : run o entry steps = .ok final) : TurnStep.accepted steps = [] := by
  induction steps generalizing entry with
  | nil => rfl
  | cons step steps ih =>
    rw [run] at hrun
    cases hstep : step.apply o entry with
    | error e =>
      rw [hstep] at hrun
      cases hrun
    | ok next =>
      rw [hstep] at hrun
      obtain ⟨hnone, hstill⟩ := RunningTurn.apply_closed hclosed hstep
      rw [accepted_cons, hnone, ih hstill hrun, List.append_nil]

theorem run_published (h : Sound streamed entry.coalescer) (hrun : run o entry steps = .ok final) :
    ∃ sent, Published o streamed (TurnStep.accepted steps) entry.coalescer final.coalescer
      sent := by
  induction steps generalizing entry streamed with
  | nil =>
    cases hrun
    refine ⟨[], (List.append_nil _).symm, ?_, trivial, ?_⟩
    · rw [TurnStep.accepted, List.append_nil]
      exact h
    · intro hempty position hfrom hto
      have hlen := h.length_buffer
      rw [hempty, List.flatten_nil, List.length_nil] at hlen
      constructor
      · rintro ⟨d, hd, _⟩
        cases hd
      · rintro ⟨hlt, _, _⟩
        omega
  | cons step steps ih =>
    rw [run] at hrun
    cases hstep : step.apply o entry with
    | error e =>
      rw [hstep] at hrun
      cases hrun
    | ok next =>
      rw [hstep] at hrun
      obtain ⟨hsound, hmoved⟩ := RunningTurn.apply_moved h hstep
      obtain ⟨sent, hsent⟩ := ih hsound hrun
      rw [accepted_cons]
      rcases hmoved with hquiet | ⟨d, hflushed⟩
      · exact ⟨sent, hsent.of_quiet hquiet⟩
      · refine ⟨_, hsent.of_flushed hflushed ?_⟩
        intro hnone
        rcases RunningTurn.apply_quiet hstep hnone with hsame | hclosed
        · have hlt := hflushed.piece.offset_lt
          have hchars := hflushed.chars
          have hoffset : d.fragment.offset = entry.coalescer.publishedChars := hflushed.offset
          have hstop : d.fragment.stop = (streamed ++ TurnStep.accepted [step]).length :=
            hflushed.stop
          rw [hsame] at hchars
          omega
        · exact run_closed hclosed hrun

/-! ### The turn's identity and its ending -/

/-- The partials carry the turn's identity, and a closed coalescer has nothing buffered. -/
structure Kept (turnId messageId : ℕ) (entry : RunningTurn T) : Prop where
  turn : entry.turnId = turnId
  message : entry.messageId = messageId
  baseTurn : entry.partialBase.turnId = turnId
  baseMessage : entry.partialBase.messageId = messageId
  named : ∀ d ∈ entry.coalescer.published, d.turnId = turnId ∧ d.messageId = messageId
  drained : entry.coalescer.closed = true → entry.coalescer.buffer = []

theorem kept_start (turnId messageId : ℕ) :
    Kept turnId messageId (.start turnId messageId : RunningTurn T) := by
  refine ⟨rfl, rfl, rfl, rfl, ?_, fun _ => rfl⟩
  intro d hd
  cases hd

variable {turnId messageId : ℕ}

namespace AgentTextPartialCoalescer

theorem buffer_flush (o : Outside T) (base : AgentTextPartial)
    (c : AgentTextPartialCoalescer T) : (c.flush o base).buffer = [] := by
  unfold flush
  split
  · assumption
  · rfl

theorem named_flush (hturn : base.turnId = turnId) (hmessage : base.messageId = messageId)
    (h : ∀ d ∈ c.published, d.turnId = turnId ∧ d.messageId = messageId) :
    ∀ d ∈ (c.flush o base).published, d.turnId = turnId ∧ d.messageId = messageId := by
  unfold flush
  split
  · exact h
  · intro d hd
    change d ∈ (if _ then _ else _) at hd
    split at hd
    · rcases List.mem_append.mp hd with hd | hd
      · exact h d hd
      · rw [List.mem_singleton.mp hd]
        exact ⟨hturn, hmessage⟩
    · exact h d hd

end AgentTextPartialCoalescer

open AgentTextPartialCoalescer in
theorem Kept.apply (h : Kept turnId messageId entry) (hstep : step.apply o entry = .ok next) :
    Kept turnId messageId next := by
  cases step with
  | accept text =>
    change entry.accept o text = .ok next at hstep
    unfold RunningTurn.accept at hstep
    split at hstep
    · cases hstep
      exact h
    · cases hoffer : entry.coalescer.offer o entry.partialBase text with
      | error e =>
        rw [hoffer] at hstep
        cases hstep
      | ok c' =>
        rw [hoffer] at hstep
        cases hstep
        obtain ⟨hopen, readings, hc'⟩ := offer_cases hoffer
        refine ⟨h.turn, h.message, h.baseTurn, h.baseMessage, ?_, ?_⟩
        · rcases hc' with rfl | rfl
          · exact h.named
          · exact named_flush h.baseTurn h.baseMessage h.named
        · intro hclosed
          rcases hc' with rfl | rfl
          · exact absurd (hopen.symm.trans hclosed) (by decide)
          · rw [closed_flush] at hclosed
            exact absurd (hopen.symm.trans hclosed) (by decide)
  | complete answer =>
    cases hstep
    exact ⟨h.turn, h.message, h.baseTurn, h.baseMessage, h.named, h.drained⟩
  | publishFinal =>
    cases hstep
    refine ⟨h.turn, h.message, h.baseTurn, h.baseMessage, ?_, ?_⟩
    · show ∀ d ∈ (entry.coalescer.close o entry.partialBase).published, _
      unfold close
      split
      · exact h.named
      · exact named_flush h.baseTurn h.baseMessage h.named
    · intro _
      show (entry.coalescer.close o entry.partialBase).buffer = []
      unfold close
      split
      · exact h.drained (by assumption)
      · exact buffer_flush _ _ _

theorem run_kept (h : Kept turnId messageId entry) (hrun : run o entry steps = .ok final) :
    Kept turnId messageId final := by
  induction steps generalizing entry with
  | nil =>
    cases hrun
    exact h
  | cons step steps ih =>
    rw [run] at hrun
    cases hstep : step.apply o entry with
    | error e =>
      rw [hstep] at hrun
      cases hrun
    | ok next =>
      rw [hstep] at hrun
      exact ih (h.apply hstep) hrun

theorem run_append (xs ys : List TurnStep) :
    run o entry (xs ++ ys) = .ok final ↔
      ∃ mid, run o entry xs = .ok mid ∧ run o mid ys = .ok final := by
  induction xs generalizing entry with
  | nil => simp [run]
  | cons step xs ih =>
    rw [List.cons_append, run, run]
    cases step.apply o entry with
    | error e => simp
    | ok next => exact ih

/-- The text that is shown after a step. -/
def TurnStep.shown : List Char → TurnStep → List Char
  | text, .accept more => text ++ more
  | _, .complete answer => answer
  | text, .publishFinal => text

theorem run_receivedText (hrun : run o entry steps = .ok final) :
    final.receivedText = steps.foldl TurnStep.shown entry.receivedText := by
  induction steps generalizing entry with
  | nil =>
    cases hrun
    rfl
  | cons step steps ih =>
    rw [run] at hrun
    cases hstep : step.apply o entry with
    | error e =>
      rw [hstep] at hrun
      cases hrun
    | ok next =>
      rw [hstep] at hrun
      rw [List.foldl_cons, ih hrun]
      congr 1
      cases step with
      | accept text =>
        change entry.accept o text = .ok next at hstep
        unfold RunningTurn.accept at hstep
        split at hstep
        · next htext =>
          rw [← Except.ok.inj hstep, TurnStep.shown, htext, List.append_nil]
        · cases hoffer : entry.coalescer.offer o entry.partialBase text with
          | error e =>
            rw [hoffer] at hstep
            cases hstep
          | ok c' =>
            rw [hoffer] at hstep
            cases hstep
            simp [RunningTurn.receivedText, TurnStep.shown]
      | complete answer =>
        cases hstep
        simp [RunningTurn.receivedText, RunningTurn.complete, TurnStep.shown]
      | publishFinal =>
        cases hstep
        rfl

/-- No step of a turn raises. -/
theorem run_turnSteps_ok (o : Outside T) (turnId messageId : ℕ) (chunks : List (List Char))
    (answer : Option (List Char)) :
    ∃ final, run o (.start turnId messageId) (turnSteps chunks answer) = .ok final := by
  have hstream : ∀ entry : RunningTurn T, entry.coalescer.closed = false →
      ∃ final, run o entry (chunks.map .accept) = .ok final := by
    induction chunks with
    | nil => exact fun entry _ => ⟨entry, rfl⟩
    | cons text chunks ih =>
      intro entry hopen
      have hnext : ∃ next, entry.accept o text = .ok next ∧ next.coalescer.closed = false := by
        unfold RunningTurn.accept
        split
        · exact ⟨entry, rfl, hopen⟩
        · cases hoffer : entry.coalescer.offer o entry.partialBase text with
          | error e =>
            rw [AgentTextPartialCoalescer.offer, if_neg (by rw [hopen]; decide)] at hoffer
            cases hoffer
          | ok c' =>
            refine ⟨_, rfl, ?_⟩
            obtain ⟨_, readings, hc'⟩ := offer_cases hoffer
            rcases hc' with rfl | rfl
            · exact hopen
            · exact (AgentTextPartialCoalescer.closed_flush _ _ _).trans hopen
      obtain ⟨next, haccept, hstill⟩ := hnext
      obtain ⟨final, hrun⟩ := ih next hstill
      refine ⟨final, ?_⟩
      rw [List.map_cons, run, show TurnStep.apply o entry (.accept text) = _ from haccept]
      exact hrun
  obtain ⟨streamed, hrun⟩ := hstream (.start turnId messageId) rfl
  cases answer with
  | none | some answer => exact ⟨_, (run_append _ _).mpr ⟨streamed, hrun, rfl⟩⟩

end Grafy.TextPartials
