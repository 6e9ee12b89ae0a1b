import KVarN.Frontend.Unified

/-!
# The order of reasoning and text

The events of a stream should list the reasoning and the text of the model in the order in which it
has written them, however its output is cut into deltas. For one delta the reasoning parser returns
its reasoning and its content as two texts, and the combined parser emits the reasoning first: what
was content before reasoning comes after it. The order is right exactly when no delta has that.

## Main definitions

* `mergeNeighbours` — neighbours of one kind as one event.
* `segments` — the reasoning and the text of an output, in the order of the output.
* `DelimitedReasoningParser.DeltasInOrder` — no delta reads content and then reasoning.

## Main results

* `events_chars_iff` — the events carry the characters in order iff the deltas are in order.
* `events_follow_output` — all such ways of cutting an output give its segments.
* `events_channels` — every way of cutting it gives its reasoning and its text, each in order.
-/

namespace KVarN.Frontend

open KVarN.Lib UnifiedParserOutput ToolParser List

/-! ## Events and characters -/

/-- An event with the text that is read in a state. -/
def UnifiedParserEvent.ofText (inReasoning : Bool) (text : Text) : UnifiedParserEvent :=
  if inReasoning then .reasoning text else .text text

open UnifiedParserEvent (ofText)

/-- Put an event before others; it is joined to a first event of its kind. -/
def joinHead : UnifiedParserEvent → List UnifiedParserEvent → List UnifiedParserEvent
  | .text t, .text t' :: es => .text (t ++ t') :: es
  | .reasoning t, .reasoning t' :: es => .reasoning (t ++ t') :: es
  | e, es => e :: es

/-- Neighbouring events of the same kind are one event. -/
def mergeNeighbours (es : List UnifiedParserEvent) : List UnifiedParserEvent :=
  es.foldr joinHead []

/-- Characters of one kind in a row are one event. -/
def runs (xs : List (Bool × Char)) : List UnifiedParserEvent :=
  xs.foldr (fun x es => joinHead (ofText x.1 [x.2]) es) []

/-- The segments of an output, in the order in which they occur in it. -/
def segments (delims : Delimiters) (inReasoning : Bool) (output : Text) : List UnifiedParserEvent :=
  runs (scan delims.delim inReasoning 0 output)

/-- The characters of an event, with their kind. -/
def UnifiedParserEvent.chars : UnifiedParserEvent → List (Bool × Char)
  | .text t => t.map (false, ·)
  | .reasoning t => t.map (true, ·)
  | .toolCall _ => []

def chars (es : List UnifiedParserEvent) : List (Bool × Char) := es.flatMap (·.chars)

@[simp] theorem chars_append (es es' : List UnifiedParserEvent) :
    chars (es ++ es') = chars es ++ chars es' := flatMap_append

@[simp] theorem chars_ofText (s : Bool) (t : Text) : chars [ofText s t] = t.map (s, ·) := by
  cases s <;> simp [chars, ofText, UnifiedParserEvent.chars]

/-- Only texts and reasoning, none of them empty. -/
def Plain (es : List UnifiedParserEvent) : Prop := ∀ e ∈ es, ∃ s t, t ≠ [] ∧ e = ofText s t

theorem Plain.append {es es' : List UnifiedParserEvent} (h : Plain es) (h' : Plain es') :
    Plain (es ++ es') := fun e he =>
  (mem_append.1 he).elim (h e) (h' e)

theorem joinHead_ofText (s : Bool) (t t' : Text) (es : List UnifiedParserEvent) :
    joinHead (ofText s t) (joinHead (ofText s t') es) = joinHead (ofText s (t ++ t')) es := by
  cases es with
  | nil => cases s <;> rfl
  | cons e es => cases s <;> cases e <;> simp [joinHead, ofText]

theorem joinHead_runs (s : Bool) {t : Text} (ht : t ≠ []) (xs : List (Bool × Char)) :
    joinHead (ofText s t) (runs xs) = runs (t.map (s, ·) ++ xs) := by
  induction t with
  | nil => exact absurd rfl ht
  | cons c t ih =>
    rcases eq_or_ne t [] with rfl | hne
    · rfl
    · have hcons : runs ((c :: t).map (s, ·) ++ xs)
          = joinHead (ofText s [c]) (runs (t.map (s, ·) ++ xs)) := rfl
      rw [hcons, ← ih hne, joinHead_ofText, singleton_append]

/-- Merged events are determined by their characters. -/
theorem mergeNeighbours_eq_runs {es : List UnifiedParserEvent} (h : Plain es) :
    mergeNeighbours es = runs (chars es) := by
  induction es with
  | nil => rfl
  | cons e es ih =>
    obtain ⟨s, t, ht, rfl⟩ := h e (by simp)
    have hes : Plain es := fun e he => h e (mem_cons_of_mem _ he)
    have hchars : chars (ofText s t :: es) = t.map (s, ·) ++ chars es := by
      rw [← singleton_append, chars_append, chars_ofText]
    rw [hchars, ← joinHead_runs s ht, ← ih hes]
    rfl

/-! ## Outputs -/

/-- What pushing a text of one kind does to an output. -/
inductive Pushed (s : Bool) (t : Text) : UnifiedParserOutput → UnifiedParserOutput → Prop
  | empty (output) : t = [] → Pushed s t output output
  | join (output last) : Pushed s t (output ++ [ofText s last]) (output ++ [ofText s (last ++ t)])
  | new (output) : t ≠ [] → Pushed s t output (output ++ [ofText s t])

namespace Pushed

variable {s : Bool} {t : Text} {output output' : UnifiedParserOutput}

theorem pushText (output : UnifiedParserOutput) (t : Text) :
    Pushed false t output (output.pushText t) := by
  rw [UnifiedParserOutput.pushText]
  split_ifs with ht
  · exact .empty output ht
  · split
    · next last h =>
      obtain ⟨es, rfl⟩ := getLast?_eq_some_iff.1 h
      rw [dropLast_concat]
      exact .join es last
    · exact .new output ht

theorem pushReasoning (output : UnifiedParserOutput) (t : Text) :
    Pushed true t output (output.pushReasoning t) := by
  rw [UnifiedParserOutput.pushReasoning]
  split_ifs with ht
  · exact .empty output ht
  · split
    · next last h =>
      obtain ⟨es, rfl⟩ := getLast?_eq_some_iff.1 h
      rw [dropLast_concat]
      exact .join es last
    · exact .new output ht

theorem chars (h : Pushed s t output output') :
    chars output' = Frontend.chars output ++ t.map (s, ·) := by
  cases h with
  | empty _ ht => simp [ht]
  | join => simp
  | new => simp

theorem plain (h : Pushed s t output output') (hp : Plain output) : Plain output' := by
  cases h with
  | empty => exact hp
  | join es last =>
    obtain ⟨s', t', ht', he⟩ := hp (ofText s last) (by simp)
    have hlast : last ≠ [] := by
      cases s <;> cases s' <;> simp_all [ofText]
    refine Plain.append (fun e he => hp e (by simp [he])) fun e he => ?_
    exact ⟨s, last ++ t, by simp [hlast], mem_singleton.1 he⟩
  | new _ ht => exact hp.append fun e he => ⟨s, t, ht, mem_singleton.1 he⟩

end Pushed

/-! ## One delta -/

/-- A tool parser that emits every text as it comes. -/
structure PassesThrough (τ : Type) [ToolParser τ] : Prop where
  parseInto : ∀ (tool : τ) content, (parseInto tool content).1 = .ok () ∧
    (parseInto tool content).2.1 = if content = [] then [] else [.text content]
  finish : ∀ tool : τ, (finish tool).1 = .ok []

namespace CombinedParser

variable {τ : Type} [ToolParser τ] {p : CombinedParser τ}

/-- There is no tool parser, or it emits every text as it comes. -/
def PassesText (p : CombinedParser τ) : Prop := p.tool = none ∨ PassesThrough τ

theorem PassesText.parseContent (h : p.PassesText) (content : Option Text)
    (output : UnifiedParserOutput) :
    ∃ p', p.parseContent content output = (.ok (), output.pushText (content.getD []), p') ∧
      p'.reasoning = p.reasoning ∧ p'.PassesText := by
  cases content with
  | none => exact ⟨p, by simp [CombinedParser.parseContent, pushText], rfl, h⟩
  | some content =>
    cases ht : p.tool with
    | none => exact ⟨p, by simp [CombinedParser.parseContent, parseTool, ht], rfl, h⟩
    | some tool =>
      have hpass : PassesThrough τ := h.resolve_left (by simp [ht])
      obtain ⟨hok, hevents⟩ := hpass.parseInto tool content
      refine ⟨{ p with tool := some (ToolParser.parseInto tool content).2.2 }, ?_, rfl, .inr hpass⟩
      simp only [CombinedParser.parseContent, parseTool, ht, hok, hevents, Option.getD_some]
      split_ifs with hc
      · simp [appendToolOutput, pushText, hc]
      · rfl

/-- The characters of a text as one delta emits them: reasoning first. -/
def reordered (xs : List (Bool × Char)) : List (Bool × Char) :=
  (readIn true xs).map (true, ·) ++ (readIn false xs).map (false, ·)

/-- What a reasoning delta is emitted as. -/
theorem PassesText.parseDelta (h : p.PassesText) {d : ReasoningDelta} {xs : List (Bool × Char)}
    (hd : DelimitedReasoningParser.Returns d xs) : ∃ es p', p.parseContent d.content
        (pushReasoning [] (d.reasoning.getD [])) = (.ok (), es, p') ∧
      p'.reasoning = p.reasoning ∧ p'.PassesText ∧ Plain es ∧ chars es = reordered xs := by
  obtain ⟨p', hparse, hreasoning, hpass⟩ := h.parseContent d.content
    (pushReasoning [] (d.reasoning.getD []))
  have hr := Pushed.pushReasoning [] (d.reasoning.getD [])
  have ht := Pushed.pushText (pushReasoning [] (d.reasoning.getD []))
    (d.content.getD [])
  refine ⟨_, p', hparse, hreasoning, hpass, ht.plain (hr.plain fun _ he => by cases he), ?_⟩
  rw [ht.chars, hr.chars, hd.reasoning, hd.content]
  rfl

/-- **One delta** emits the reasoning it reads and then the content. -/
theorem PassesText.parseInto (h : p.PassesText) {r : DelimitedReasoningParser}
    (hr : p.reasoning = some r) (delta : Text) :
    ∃ es p', p.parseInto delta [] = (.ok (), es, p') ∧ p'.reasoning = some (r.push delta).2 ∧
      p'.PassesText ∧ Plain es ∧
      chars es = reordered (scan r.delims.delim r.currentInReasoning 0 (r.stableText delta)) := by
  have hpass : PassesText { p with reasoning := some (r.push delta).2 } := h
  obtain ⟨es, p', hparse, hrest⟩ := hpass.parseDelta (r.parse_reads (r.stableText delta)).1
  refine ⟨es, p', ?_, hrest⟩
  rw [CombinedParser.parseInto, hr]
  exact hparse

/-- The end of the stream emits what is held back. -/
theorem PassesText.finish (h : p.PassesText) {r : DelimitedReasoningParser}
    (hr : p.reasoning = some r) : ∃ es, p.finish.1 = .ok es ∧ Plain es ∧
      chars es = reordered (scan r.delims.delim r.currentInReasoning 0 r.buffer) := by
  have hpass : PassesText { p with reasoning := some r.finish.2 } := h
  obtain ⟨es, p', hparse, -, hpass', hplain, hchars⟩ :=
    hpass.parseDelta (r.parse_reads r.buffer).1
  have hflush : p.flushReasoning = (.ok (), es, p') := by
    rw [flushReasoning, hr]
    exact hparse
  have htool : p'.flushTool.1 = .ok [] := by
    rw [flushTool]
    cases ht : p'.tool with
    | none => rfl
    | some tool =>
      have hthrough : PassesThrough τ := hpass'.resolve_left (by simp [ht])
      simp [hthrough.finish tool, Except.map, appendToolOutput]
  refine ⟨es, ?_, hplain, hchars⟩
  rw [CombinedParser.finish, hflush]
  rcases hq : p'.flushTool with ⟨_ | flushed, q⟩
  · simp [hq] at htool
  · obtain rfl : flushed = [] := by simpa [hq] using htool
    simp only [hq]
    rfl

/-- The events of a stream, up to its end. -/
def events (p : CombinedParser τ) : List Text → Except ToolParserError (List UnifiedParserEvent)
  | [] => p.finish.1
  | delta :: deltas =>
    match p.parseInto delta [] with
    | (.error e, _, _) => .error e
    | (.ok (), es, p) => (p.events deltas).map (es ++ ·)

end CombinedParser

open CombinedParser

variable (xs : List (Bool × Char))

/-- No content before reasoning. -/
def ReasoningFirst : Prop := xs.Pairwise fun a b => b.1 = true → a.1 = true
  deriving Decidable

theorem reasoningFirst_reordered : ReasoningFirst (reordered xs) := by
  refine pairwise_append.2 ⟨?_, ?_, ?_⟩
  · exact pairwise_map.2 (pairwise_of_forall fun _ _ _ => rfl)
  · exact pairwise_map.2 (pairwise_of_forall fun _ _ hb => absurd hb (by simp))
  · intro a ha b _ _
    obtain ⟨c, -, rfl⟩ := mem_map.1 ha
    rfl

/-- Reordering changes nothing exactly when no content comes before reasoning. -/
theorem reordered_eq_iff : reordered xs = xs ↔ ReasoningFirst xs := by
  refine ⟨fun h => h ▸ reasoningFirst_reordered xs, fun h => ?_⟩
  induction xs with
  | nil => rfl
  | cons x xs ih =>
    obtain ⟨hx, hxs⟩ := pairwise_cons.1 h
    obtain ⟨_ | _, c⟩ := x
    · -- after content there is only content
      have hall : ∀ b ∈ xs, b.1 = false := fun b hb => by
        cases hb1 : b.1 with
        | false => rfl
        | true => exact absurd (hx b hb hb1) (by simp)
      obtain ⟨t, rfl⟩ : ∃ t : Text, xs = t.map (false, ·) := by
        refine ⟨xs.map (·.2), ?_⟩
        rw [map_map]
        conv_lhs => rw [← map_id xs]
        exact map_congr_left fun b hb => Prod.ext (hall b hb) rfl
      have hmap : (false, c) :: t.map (false, ·) = (c :: t).map (false, ·) := rfl
      rw [hmap, reordered, readIn_true_map_false, readIn_map_self, map_nil, nil_append]
    · have hcons : reordered ((true, c) :: xs) = (true, c) :: reordered xs := by
        simp [reordered, readIn]
      rw [hcons, ih hxs]

theorem length_reordered : (reordered xs).length = xs.length := by
  induction xs with
  | nil => rfl
  | cons x xs ih =>
    obtain ⟨_ | _, c⟩ := x
    · simp_all [reordered, readIn]
      omega
    · simp_all [reordered, readIn]

namespace DelimitedReasoningParser

/-- No delta reads content and then reasoning, nor does the end of the stream. -/
def DeltasInOrder (r : DelimitedReasoningParser) : List Text → Prop
  | [] => ReasoningFirst (scan r.delims.delim r.currentInReasoning 0 r.buffer)
  | delta :: deltas =>
    ReasoningFirst (scan r.delims.delim r.currentInReasoning 0 (r.stableText delta)) ∧
      DeltasInOrder (r.push delta).2 deltas

instance : (r : DelimitedReasoningParser) → (deltas : List Text) →
    Decidable (r.DeltasInOrder deltas)
  | _, [] => inferInstanceAs (Decidable (ReasoningFirst _))
  | r, delta :: deltas =>
    have := instDecidableDeltasInOrder (r.push delta).2 deltas
    inferInstanceAs (Decidable (_ ∧ _))

end DelimitedReasoningParser

/-- The events carry the characters of the output in its order **exactly when** the deltas are in
order. -/
theorem events_chars_iff {τ : Type} [ToolParser τ] {p : CombinedParser τ} (h : p.PassesText)
    {r : DelimitedReasoningParser} (hr : p.reasoning = some r) (deltas : List Text) :
    ∃ es, p.events deltas = .ok es ∧ Plain es ∧
      (chars es = scan r.delims.delim r.currentInReasoning 0 (r.buffer ++ deltas.flatten) ↔
        r.DeltasInOrder deltas) := by
  induction deltas generalizing p r with
  | nil =>
    obtain ⟨es, hes, hplain, hchars⟩ := h.finish hr
    refine ⟨es, hes, hplain, ?_⟩
    rw [hchars, flatten_nil, append_nil]
    exact reordered_eq_iff _
  | cons delta deltas ih =>
    obtain ⟨es, p', hparse, hr', hpass, hplain, hchars⟩ := h.parseInto hr delta
    obtain ⟨es', hes', hplain', hiff⟩ := ih hpass hr'
    refine ⟨es ++ es', by rw [events, hparse]; simp [hes', Except.map], hplain.append hplain', ?_⟩
    -- the output is read up to the held-back text and on from there
    have hsplit : r.buffer ++ (delta :: deltas).flatten
        = r.stableText delta ++ (r.pendingText delta ++ deltas.flatten) := by
      rw [flatten_cons, ← append_assoc, ← r.stableText_append_pendingText delta, append_assoc]
    have hstate : (r.push delta).2 = { r with
        currentInReasoning := scanEnd r.delims.delim r.currentInReasoning 0 (r.stableText delta)
        buffer := r.pendingText delta } := by
      rw [DelimitedReasoningParser.push, (r.parse_reads (r.stableText delta)).2]
    rw [hsplit, (scan_append (r.whole_stableText delta deltas.flatten) (Nat.zero_le _)).1,
      chars_append, hchars]
    rw [hstate] at hiff
    rw [DelimitedReasoningParser.DeltasInOrder, hstate, ← hiff, ← reordered_eq_iff]
    constructor
    · exact fun he => append_inj he (length_reordered _)
    · rintro ⟨h₁, h₂⟩
      rw [h₁, h₂]

/-- `PreserveToolParser`. -/
structure PreserveToolParser

instance : ToolParser PreserveToolParser where
  parseInto tool chunk := (.ok (), if chunk = [] then [] else [.text chunk], tool)
  finish tool := (.ok [], tool)
  reset tool := ([], tool)

theorem passesThrough_preserveToolParser : PassesThrough PreserveToolParser :=
  ⟨fun _ _ => ⟨rfl, rfl⟩, fun _ => rfl⟩

/-- A parser at the start of a stream, without tool parser. -/
def CombinedParser.start (delims : Delimiters) (inReasoning : Bool) :
    CombinedParser PreserveToolParser where
  reasoning := some ⟨delims, inReasoning, []⟩
  tool := none

/-- Content before reasoning in one delta comes after it; in two deltas it does not. -/
theorem events_depend_on_cut :
    ((start .think false).events ["a<think>b</think>c".toList]).map mergeNeighbours
        = .ok [.reasoning "b".toList, .text "ac".toList] ∧ ((start .think false).events
        ["a".toList, "<think>b</think>c".toList]).map mergeNeighbours
        = .ok [.text "a".toList, .reasoning "b".toList, .text "c".toList] := by
  decide +kernel

/-- **Every way of cutting an output into deltas in order gives its segments**, in the order in
which they occur in it; any two of them give the same events. -/
theorem events_follow_output {τ : Type} [ToolParser τ] {p : CombinedParser τ} (h : p.PassesText)
    {r : DelimitedReasoningParser} (hr : p.reasoning = some r) (hstart : r.buffer = [])
    {deltas deltas' : List Text} (hsame : deltas.flatten = deltas'.flatten)
    (horder : r.DeltasInOrder deltas) (horder' : r.DeltasInOrder deltas') :
    (p.events deltas).map mergeNeighbours
        = .ok (segments r.delims r.currentInReasoning deltas.flatten) ∧
      (p.events deltas).map mergeNeighbours = (p.events deltas').map mergeNeighbours := by
  have key : ∀ ds, r.DeltasInOrder ds → (p.events ds).map mergeNeighbours
      = .ok (segments r.delims r.currentInReasoning ds.flatten) := by
    intro ds hds
    obtain ⟨es, hes, hplain, hiff⟩ := events_chars_iff h hr ds
    rw [hes, Except.map, mergeNeighbours_eq_runs hplain, hiff.2 hds, hstart, nil_append]
    rfl
  exact ⟨key deltas horder, by rw [key deltas horder, key deltas' horder', hsame]⟩

/-- Reasoning that is closed and reopened in different deltas. -/
theorem events_follow_output_reopened : ((start .think true).events
        ["a</th".toList, "ink>b".toList, "<think>c".toList]).map mergeNeighbours
      = ((start .think true).events ["a</think>b<".toList, "think>c".toList]).map mergeNeighbours :=
  (events_follow_output (.inl rfl) rfl rfl (by decide) (by decide +kernel) (by decide +kernel)).2

/-! ## However the output is cut -/

theorem readIn_reordered (s : Bool) : readIn s (reordered xs) = readIn s xs := by
  cases s <;> simp [reordered]

/-- **However an output is cut**, the stream has no error, and its reasoning and its text, each put
together, are those of the whole output. -/
theorem events_channels {τ : Type} [ToolParser τ] {p : CombinedParser τ} (h : p.PassesText)
    {r : DelimitedReasoningParser} (hr : p.reasoning = some r) (deltas : List Text) :
    ∃ es, p.events deltas = .ok es ∧ ∀ s, readIn s (chars es) =
      readIn s (scan r.delims.delim r.currentInReasoning 0 (r.buffer ++ deltas.flatten)) := by
  induction deltas generalizing p r with
  | nil =>
    obtain ⟨es, hes, -, hchars⟩ := h.finish hr
    exact ⟨es, hes, fun s => by simp [hchars, readIn_reordered]⟩
  | cons delta deltas ih =>
    obtain ⟨es, p', hparse, hr', hpass, -, hchars⟩ := h.parseInto hr delta
    obtain ⟨es', hes', ih⟩ := ih hpass hr'
    refine ⟨es ++ es', by rw [events, hparse]; simp [hes', Except.map], fun s => ?_⟩
    -- the output is read up to the held-back text and on from there
    have hscan := (scan_append (r.whole_stableText delta deltas.flatten)
      (s := r.currentInReasoning) (Nat.zero_le _)).1
    rw [← append_assoc, r.stableText_append_pendingText, append_assoc, ← flatten_cons] at hscan
    rw [hscan, chars_append, readIn_append, hchars, readIn_reordered, ih s, readIn_append,
      DelimitedReasoningParser.push, (r.parse_reads _).2]

/-- Content on both sides of the reasoning, in one delta, through a tool parser. -/
theorem events_channels_oneDelta :
    ∃ es, ({ start .think false with tool := some ⟨⟩ } : CombinedParser PreserveToolParser).events
        ["a<think>b</think>c".toList] = .ok es ∧ readIn false (chars es) = ['a', 'c'] :=
  (events_channels (.inr passesThrough_preserveToolParser) rfl _).imp fun _ h =>
    ⟨h.1, (h.2 false).trans (by decide +kernel)⟩

end KVarN.Frontend
