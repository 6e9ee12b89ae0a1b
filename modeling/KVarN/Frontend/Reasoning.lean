import KVarN.Lib.DelimScan

/-!
# Delimited reasoning

`DelimitedReasoningParser` splits the text of a model into reasoning and content. It gets the text
in deltas, holds back the end of a delta that may still become a delimiter, and returns for each
delta the reasoning and the content it has read, each as one text.

Texts are lists of characters.

## Main definitions

* `Delimiters` — a pair of tokens that can be told apart; the pairs of the model families.
* `DelimitedReasoningParser.push`, `DelimitedReasoningParser.finish` — the parser.

## Main results

* `parse_reads` — a delta returns what is read in its stable text, by state.
* `whole_stableText` — the stable text of a delta never ends inside a delimiter.
-/

namespace KVarN.Frontend

open KVarN.Lib List

/-- Texts, by characters. -/
abbrev Text := List Char

/-- `ReasoningDelta`. -/
structure ReasoningDelta where
  reasoning : Option Text := none
  content : Option Text := none
  deriving DecidableEq, Repr

/-- A text appended to a part of a delta, which is created by its first character. -/
def pushPart (part : Option Text) (text : Text) : Option Text :=
  if text = [] then part else some (part.getD [] ++ text)

namespace ReasoningDelta

variable (d : ReasoningDelta) (text : Text)

/-- `push_reasoning`. -/
def pushReasoning : ReasoningDelta :=
  { d with reasoning := pushPart d.reasoning text }

/-- `push_content`. -/
def pushContent : ReasoningDelta :=
  { d with content := pushPart d.content text }

/-- Append text that is read in a state. -/
def pushIn (inReasoning : Bool) (text : Text) : ReasoningDelta :=
  if inReasoning then d.pushReasoning text else d.pushContent text

end ReasoningDelta

@[simp] theorem pushPart_getD (part : Option Text) (text : Text) :
    (pushPart part text).getD [] = part.getD [] ++ text := by
  rw [pushPart]
  split_ifs with h
  · simp [h]
  · rfl

theorem pushPart_ne {part : Option Text} {text : Text} (h : part ≠ some []) :
    pushPart part text ≠ some [] := by
  rw [pushPart]
  split_ifs with ht
  · exact h
  · simp [ht]

/-! ## Delimiters -/

/-- The delimiter that is awaited in a state. -/
def awaited (startToken endToken : Text) (inReasoning : Bool) : Text :=
  if inReasoning then endToken else startToken

/-- A pair of delimiters: neither is empty, and no end of one is the beginning of one. -/
structure Delimiters where
  startToken : Text
  endToken : Text
  start_ne : startToken ≠ []
  end_ne : endToken ≠ []
  separated : Separated (awaited startToken endToken)

namespace Delimiters

/-- The delimiter that is awaited in a state. -/
def delim (d : Delimiters) : Bool → Text := awaited d.startToken d.endToken

theorem delim_ne (d : Delimiters) (s : Bool) : d.delim s ≠ [] := by
  cases s
  · exact d.start_ne
  · exact d.end_ne

/-- The delimiters of `Qwen3ReasoningParser`, `DeepSeekR1ReasoningParser`, `Step3p5ReasoningParser`
and the families that share them. -/
def think : Delimiters :=
  ⟨"<think>".toList, "</think>".toList, by decide, by decide, separated_of_drop (by decide)⟩

/-- The delimiters of `CohereCmdReasoningParser`. -/
def cohereCmd : Delimiters :=
  ⟨"<|START_THINKING|>".toList, "<|END_THINKING|>".toList, by decide, by decide,
    separated_of_drop (by decide)⟩

/-- The delimiters of `SeedOssReasoningParser`. -/
def seedOss : Delimiters :=
  ⟨"<seed:think>".toList, "</seed:think>".toList, by decide, by decide,
    separated_of_drop (by decide)⟩

/-- The delimiters of `KimiReasoningParser`. -/
def kimi : Delimiters :=
  ⟨"◁think▷".toList, "◁/think▷".toList, by decide, by decide, separated_of_drop (by decide)⟩

/-- The delimiters of `MiniMaxM3ReasoningParser`. -/
def minimaxM3 : Delimiters :=
  ⟨"<mm:think>".toList, "</mm:think>".toList, by decide, by decide, separated_of_drop (by decide)⟩

end Delimiters

/-! ## The parser -/

/-- `DelimitedReasoningParser`: the state that the prompt implies is `currentInReasoning`. -/
structure DelimitedReasoningParser where
  delims : Delimiters
  currentInReasoning : Bool
  buffer : Text

namespace DelimitedReasoningParser

variable (p : DelimitedReasoningParser) (delta : Text) (delims : Delimiters) (text : Text)

/-- One candidate of `partial_suffix_len`: the end of the text from `idx` on. -/
def keepLonger (best idx : ℕ) : ℕ :=
  if Begins delims.delim (text.drop idx) then max best (text.length - idx) else best

/-- `partial_suffix_len`: the length of the longest end of the text that may still become a
delimiter. The whole text is looked at last. -/
def pendingLen : ℕ :=
  keepLonger delims text (((range text.length).drop 1).foldl (keepLonger delims text) 0) 0

/-- `parse_stable_text`: each iteration reads up to the awaited delimiter, so that there are at most
as many as there are characters. -/
def parseStableText (delims : Delimiters) :
    ℕ → Bool → Text → ReasoningDelta → ReasoningDelta × Bool
  | 0, s, _, delta => (delta, s)
  | fuel + 1, s, stable, delta =>
    if stable = [] then (delta, s)
    else if s then
      match findAt delims.endToken stable with
      | some i =>
        parseStableText delims fuel false (stable.drop (i + delims.endToken.length))
          (delta.pushReasoning (stable.take i))
      | none => (delta.pushReasoning stable, s)
    else
      match findAt delims.startToken stable with
      | some i =>
        parseStableText delims fuel true (stable.drop (i + delims.startToken.length))
          (delta.pushContent (stable.take i))
      | none => (delta.pushContent stable, s)

/-- The text that `push` parses. -/
def stableText : Text :=
  let text := p.buffer ++ delta
  text.take (text.length - pendingLen p.delims text)

/-- The text that `push` holds back. -/
def pendingText : Text :=
  let text := p.buffer ++ delta
  text.drop (text.length - pendingLen p.delims text)

/-- Parse a text to its end. -/
def parse (stable : Text) : ReasoningDelta × DelimitedReasoningParser :=
  let r := parseStableText p.delims stable.length p.currentInReasoning stable {}
  (r.1, { p with currentInReasoning := r.2 })

/-- `push`. -/
def push : ReasoningDelta × DelimitedReasoningParser :=
  let r := p.parse (p.stableText delta)
  (r.1, { r.2 with buffer := p.pendingText delta })

/-- `finish`. -/
def finish : ReasoningDelta × DelimitedReasoningParser :=
  let r := p.parse p.buffer
  (r.1, { r.2 with buffer := [] })

end DelimitedReasoningParser

/-! ## What a delta returns -/

variable (s : Bool) (text : Text)

/-- The characters that are read in a state. -/
def readIn (xs : List (Bool × Char)) : Text := (xs.filter (·.1 = s)).map (·.2)

@[simp] theorem readIn_append (xs ys : List (Bool × Char)) :
    readIn s (xs ++ ys) = readIn s xs ++ readIn s ys := by
  simp [readIn]

@[simp] theorem readIn_map_self : readIn s (text.map (s, ·)) = text := by
  simp [readIn, filter_map, Function.comp_def]

@[simp] theorem readIn_map_not : readIn s (text.map (!s, ·)) = [] := by
  simp [readIn, filter_map, Function.comp_def]

@[simp] theorem readIn_true_map_false : readIn true (text.map (false, ·)) = [] :=
  readIn_map_not true text

@[simp] theorem readIn_false_map_true : readIn false (text.map (true, ·)) = [] :=
  readIn_map_not false text

/-- The delta has read `xs` since `d`, and no part of it is empty. -/
structure ReasoningDelta.Reads (d d' : ReasoningDelta) (xs : List (Bool × Char)) : Prop where
  reasoning : d'.reasoning.getD [] = d.reasoning.getD [] ++ readIn true xs
  content : d'.content.getD [] = d.content.getD [] ++ readIn false xs
  reasoning_ne : d.reasoning ≠ some [] → d'.reasoning ≠ some []
  content_ne : d.content ≠ some [] → d'.content ≠ some []

namespace ReasoningDelta.Reads

variable {d d' d'' : ReasoningDelta} {xs ys : List (Bool × Char)}

theorem refl (d : ReasoningDelta) : d.Reads d [] := ⟨by simp [readIn], by simp [readIn], id, id⟩

theorem trans (h : d.Reads d' xs) (h' : d'.Reads d'' ys) : d.Reads d'' (xs ++ ys) where
  reasoning := by rw [h'.reasoning, h.reasoning, readIn_append, append_assoc]
  content := by rw [h'.content, h.content, readIn_append, append_assoc]
  reasoning_ne := h'.reasoning_ne ∘ h.reasoning_ne
  content_ne := h'.content_ne ∘ h.content_ne

theorem pushIn (d : ReasoningDelta) (s : Bool) (text : Text) :
    d.Reads (d.pushIn s text) (text.map (s, ·)) := by
  cases s with
  | true => exact ⟨by simp [ReasoningDelta.pushIn, pushReasoning],
      by simp [ReasoningDelta.pushIn, pushReasoning], pushPart_ne, id⟩
  | false => exact ⟨by simp [ReasoningDelta.pushIn, pushContent],
      by simp [ReasoningDelta.pushIn, pushContent], id, pushPart_ne⟩

end ReasoningDelta.Reads

namespace DelimitedReasoningParser

variable {delims : Delimiters} {p : DelimitedReasoningParser}

/-- One iteration of the loop, for both states. -/
theorem parseStableText_succ (fuel : ℕ) (s : Bool) {stable : Text} (h : stable ≠ [])
    (delta : ReasoningDelta) :
    parseStableText delims (fuel + 1) s stable delta
      = match findAt (delims.delim s) stable with
        | some i => parseStableText delims fuel (!s) (stable.drop (i + (delims.delim s).length))
            (delta.pushIn s (stable.take i))
        | none => (delta.pushIn s stable, s) := by
  cases s with
  | true => rw [parseStableText, if_neg h]; rfl
  | false => rw [parseStableText, if_neg h]; rfl

/-- The loop reads the text as `scan` does. -/
theorem parseStableText_reads (delims : Delimiters) (s : Bool) {fuel : ℕ} {stable : Text}
    (h : stable.length ≤ fuel) (delta : ReasoningDelta) :
    delta.Reads (parseStableText delims fuel s stable delta).1 (scan delims.delim s 0 stable) ∧
      (parseStableText delims fuel s stable delta).2 = scanEnd delims.delim s 0 stable := by
  induction fuel generalizing s stable delta with
  | zero =>
    obtain rfl := length_eq_zero_iff.1 (Nat.le_zero.1 h)
    exact ⟨.refl delta, rfl⟩
  | succ fuel ih =>
    rcases eq_or_ne stable [] with rfl | hne
    · exact ⟨.refl delta, rfl⟩
    rw [parseStableText_succ fuel s hne]
    cases hf : findAt (delims.delim s) stable with
    | none =>
      obtain ⟨hscan, hend⟩ := scan_of_findAt_none hf
      rw [hscan, hend]
      exact ⟨.pushIn delta s stable, rfl⟩
    | some i =>
      obtain ⟨-, hscan, hend⟩ := scan_of_findAt (delims.delim_ne s) hf
      have hpos := length_pos_iff.2 (delims.delim_ne s)
      have hlen : (stable.drop (i + (delims.delim s).length)).length ≤ fuel := by
        rw [length_drop]
        omega
      obtain ⟨hreads, hstate⟩ := ih (!s) hlen (delta.pushIn s (stable.take i))
      rw [hscan, hend]
      exact ⟨(ReasoningDelta.Reads.pushIn delta s _).trans hreads, hstate⟩

/-- A delta that reads `xs` from nothing. -/
def Returns (d : ReasoningDelta) (xs : List (Bool × Char)) : Prop := ReasoningDelta.Reads {} d xs

theorem parse_reads (p : DelimitedReasoningParser) (stable : Text) :
    Returns (p.parse stable).1 (scan p.delims.delim p.currentInReasoning 0 stable) ∧
      (p.parse stable).2 = { p with
        currentInReasoning := scanEnd p.delims.delim p.currentInReasoning 0 stable } := by
  obtain ⟨hreads, hstate⟩ := parseStableText_reads p.delims p.currentInReasoning le_rfl ({})
  exact ⟨hreads, by rw [parse, hstate]⟩

/-! ## What is held back -/

theorem stableText_append_pendingText (p : DelimitedReasoningParser) (delta : Text) :
    p.stableText delta ++ p.pendingText delta = p.buffer ++ delta :=
  take_append_drop _ _

theorem keepLonger_spec (delims : Delimiters) (text : Text) (best i : ℕ) :
    best ≤ keepLonger delims text best i ∧
      (Begins delims.delim (text.drop i) → text.length - i ≤ keepLonger delims text best i) ∧
      (keepLonger delims text best i = best ∨
        Begins delims.delim (text.drop i) ∧ keepLonger delims text best i = text.length - i) := by
  rw [keepLonger]
  split_ifs with hb
  · refine ⟨le_max_left _ _, fun _ => le_max_right _ _, ?_⟩
    rcases le_total best (text.length - i) with hle | hle
    · exact .inr ⟨hb, max_eq_right hle⟩
    · exact .inl (max_eq_left hle)
  · exact ⟨le_rfl, fun h => absurd h hb, .inl rfl⟩

/-- The loop of `partial_suffix_len` finds the longest candidate among the ends it looks at. -/
theorem foldl_keepLonger (delims : Delimiters) (text : Text) (idxs : List ℕ) (best : ℕ) :
    best ≤ idxs.foldl (keepLonger delims text) best ∧
      (∀ i ∈ idxs, Begins delims.delim (text.drop i) →
        text.length - i ≤ idxs.foldl (keepLonger delims text) best) ∧
      (idxs.foldl (keepLonger delims text) best = best ∨ ∃ i, Begins delims.delim (text.drop i) ∧
          idxs.foldl (keepLonger delims text) best = text.length - i) := by
  induction idxs generalizing best with
  | nil => simp
  | cons i idxs ih =>
    obtain ⟨hle, hmax, hattained⟩ := ih (keepLonger delims text best i)
    obtain ⟨hle', hmax', hattained'⟩ := keepLonger_spec delims text best i
    rw [foldl_cons]
    refine ⟨hle'.trans hle, ?_, ?_⟩
    · intro j hj hb
      rcases mem_cons.1 hj with rfl | hj
      · exact (hmax' hb).trans hle
      · exact hmax j hj hb
    · rcases hattained with he | h
      · rw [he]
        exact hattained'.imp id fun h => ⟨i, h⟩
      · exact .inr h

/-- `partial_suffix_len` is the length of the longest end that may become a delimiter. -/
theorem pendingLen_spec (delims : Delimiters) (text : Text) :
    (∀ i < text.length, Begins delims.delim (text.drop i) →
        text.length - i ≤ pendingLen delims text) ∧ (pendingLen delims text = 0 ∨
        ∃ i, Begins delims.delim (text.drop i) ∧ pendingLen delims text = text.length - i) := by
  have heq : pendingLen delims text
      = ((range text.length).drop 1 ++ [0]).foldl (keepLonger delims text) 0 := by
    rw [foldl_append]
    rfl
  obtain ⟨-, hmax, hattained⟩ :=
    foldl_keepLonger delims text ((range text.length).drop 1 ++ [0]) 0
  rw [← heq] at hmax hattained
  refine ⟨fun i hi => hmax i ?_, hattained⟩
  rcases i.eq_zero_or_pos with rfl | hpos
  · simp
  · refine mem_append_left _ (mem_iff_getElem.2 ⟨i - 1, ?_, ?_⟩)
    · rw [length_drop, length_range]
      omega
    · rw [getElem_drop, getElem_range]
      omega

/-- **The stable text of a delta never ends inside a delimiter**, whatever text follows. -/
theorem whole_stableText (p : DelimitedReasoningParser) (delta rest : Text) :
    Whole p.delims.delim (p.stableText delta) (p.pendingText delta ++ rest) := by
  obtain ⟨hmax, hattained⟩ := pendingLen_spec p.delims (p.buffer ++ delta)
  refine p.delims.separated.whole ?_ (fun w hw hsuf hb => ?_) rest
  · rcases hattained with h0 | ⟨i, hi, he⟩
    · left
      rw [pendingText, h0, Nat.sub_zero, drop_length]
    · rcases Nat.lt_or_ge i (p.buffer ++ delta).length with hlt | hge
      · right
        rwa [pendingText, he, Nat.sub_sub_self hlt.le]
      · left
        rw [pendingText, he, Nat.sub_eq_zero_of_le hge, Nat.sub_zero, drop_length]
  · -- a longer end would have been held back
    obtain ⟨v, hv⟩ := hsuf
    have htext : p.buffer ++ delta = v ++ (w ++ p.pendingText delta) := by
      rw [← p.stableText_append_pendingText delta, ← hv, append_assoc]
    have hle : pendingLen p.delims (p.buffer ++ delta) ≤ (p.buffer ++ delta).length := by
      rcases hattained with h0 | ⟨i, -, he⟩ <;> omega
    have hpending : (p.pendingText delta).length = pendingLen p.delims (p.buffer ++ delta) := by
      rw [pendingText, length_drop]
      omega
    have hlen : (p.buffer ++ delta).length =
        v.length + (w.length + (p.pendingText delta).length) := by
      rw [htext, length_append, length_append]
    have hwpos := length_pos_iff.2 hw
    have := hmax v.length (by omega) (by rwa [htext, drop_left])
    omega

end DelimitedReasoningParser

end KVarN.Frontend
