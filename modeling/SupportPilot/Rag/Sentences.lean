import Mathlib.Data.List.Chain
import SupportPilot.Rag.Chunking

/-! # What the sentence pattern matches

A text is a sequence of segments: characters that are not `.`, `!` or `?`,
followed by a run of these.  The pattern matches a segment whose run is followed
by whitespace or the end of the text.  It matches nothing in any other segment,
and nothing in a run at the start of the text (`segment_induction`).

So the sentences cover the text exactly when it is `Readable`; otherwise one of
the characters `.`, `!`, `?` lies in no sentence (`inSentence_of_readable`,
`readable_of_stops`). -/

namespace SupportPilot.Rag

open Lib Lib.Regex

/-- `(?=\s|$)` holds here. -/
def Ahead (rest : Text) : Prop := ∀ c ∈ rest.head?, isSpace c = true

def NoStops (w : Text) : Prop := ∀ c ∈ w, isStop c = false

def Stops (d : Text) : Prop := ∀ c ∈ d, isStop c = true

/-- The run of stops before this text ends here. -/
def RunEnds (rest : Text) : Prop := ∀ c ∈ rest.head?, isStop c = false

instance (rest : Text) : Decidable (Ahead rest) :=
  inferInstanceAs (Decidable (∀ c ∈ rest.head?, isSpace c = true))

theorem isSpace_of_isStop {c : Char} (stop : isStop c = true) : isSpace c = false := by
  simp only [isStop, Bool.or_eq_true, decide_eq_true_eq] at stop
  rcases stop with (rfl | rfl) | rfl <;> rfl

/-! ## The end of a sentence -/

section SentenceEnd

variable {d rest : Text} {groups : List (Nat × List Char)}

theorem run_lookahead (rest : Text) :
    run (.lookahead (.alt (.char isSpace) .atEnd)) ⟨rest, groups⟩ =
      if Ahead rest then [⟨rest, groups⟩] else [] := by
  cases rest with
  | nil => simp [run, Ahead]
  | cons c rest =>
    cases space : isSpace c with
    | true => simp [run, Ahead, space]
    | false =>
      have notEnd : c :: rest ≠ ['\n'] := by
        rintro same
        cases same
        cases space
      simp [run, Ahead, space, notEnd]

theorem sentenceEnd_accepts (nonempty : d ≠ []) (stops : Stops d) (ends : RunEnds rest)
    (ahead : Ahead rest) :
    (run sentenceEnd ⟨d ++ rest, groups⟩).head? = some ⟨rest, groups⟩ := by
  obtain ⟨x, d, rfl⟩ := List.exists_cons_of_ne_nil nonempty
  have look : (run (.lookahead (.alt (.char isSpace) .atEnd)) ⟨rest, groups⟩).head? =
      some ⟨rest, groups⟩ := by
    rw [run_lookahead, if_pos ahead]
    rfl
  have greedy := head_greedy (fun y member => stops y (.tail _ member)) ends look
  rw [sentenceEnd, run, List.head?_append, List.cons_append,
    run_plus_char (stops x List.mem_cons_self), greedy, Option.some_or]

theorem sentenceEnd_rejects (nonempty : d ≠ []) (stops : Stops d) (ends : RunEnds rest)
    (notAhead : ¬ Ahead rest) : run sentenceEnd ⟨d ++ rest, groups⟩ = [] := by
  obtain ⟨x, d, rfl⟩ := List.exists_cons_of_ne_nil nonempty
  have isStop_x := stops x List.mem_cons_self
  have inner : Stops d := fun y member => stops y (.tail _ member)
  have greedy : run (.seq (.star true (.char isStop))
      (.lookahead (.alt (.char isSpace) .atEnd))) ⟨d ++ rest, groups⟩ = [] := by
    refine greedy_eq_nil inner ends fun v isSuffix => ?_
    rw [run_lookahead, if_neg]
    cases v with
    | nil => exact notAhead
    | cons y v =>
      intro ahead
      have stop := inner y (isSuffix.subset List.mem_cons_self)
      have space := ahead y rfl
      rw [isSpace_of_isStop stop] at space
      cases space
  have notEnd : x :: (d ++ rest) ≠ ['\n'] := by
    intro same
    rw [(List.cons.inj same).1] at isStop_x
    cases isStop_x
  rw [sentenceEnd, run, List.cons_append, run_plus_char isStop_x, greedy]
  simp [run, notEnd]

theorem sentenceEnd_inside {c : Char} (notStop : isStop c = false) (more : rest ≠ []) :
    run sentenceEnd ⟨c :: rest, groups⟩ = [] := by
  rw [sentenceEnd, run, run_plus_char_end (by simpa using notStop)]
  simp [run, more]

end SentenceEnd

/-! ## One segment -/

section Segment

variable {w d rest : Text}

theorem match_last (nonempty : w ≠ []) (noStops : NoStops w) :
    matchLength sentencePattern w = some w.length := by
  obtain ⟨x, w, rfl⟩ := List.exists_cons_of_ne_nil nonempty
  have inner : ∀ y ∈ w, (!isStop y) = true := fun y member => by
    simpa using noStops y (.tail _ member)
  have atEnd : (run sentenceEnd ⟨[], []⟩).head? = some ⟨[], []⟩ := by
    rw [sentenceEnd, run, run_plus_char_end (by simp)]
    simp [run]
  have greedy := head_greedy inner (by simp) atEnd
  rw [List.append_nil] at greedy
  refine matchLength_of_head [] (Nat.le_refl _) ?_
  rw [sentencePattern, run_plus_char (by simpa using noStops x List.mem_cons_self), greedy,
    List.drop_length]

theorem head_run (hasRun : d ≠ []) (stops : Stops d) (rest : Text) :
    ∀ y ∈ (d ++ rest).head?, (!isStop y) = false := by
  obtain ⟨y, d, rfl⟩ := List.exists_cons_of_ne_nil hasRun
  simpa using stops y List.mem_cons_self

theorem match_accepted (nonempty : w ≠ []) (noStops : NoStops w) (hasRun : d ≠ []) (stops : Stops d)
    (ends : RunEnds rest) (ahead : Ahead rest) :
    matchLength sentencePattern (w ++ d ++ rest) = some (w ++ d).length := by
  obtain ⟨x, w, rfl⟩ := List.exists_cons_of_ne_nil nonempty
  have inner : ∀ y ∈ w, (!isStop y) = true := fun y member => by
    simpa using noStops y (.tail _ member)
  have runEnds := head_run hasRun stops rest
  have runMatch : (run sentenceEnd ⟨d ++ rest, []⟩).head? = some ⟨rest, []⟩ :=
    sentenceEnd_accepts hasRun stops ends ahead
  have greedy := head_greedy inner runEnds runMatch
  refine matchLength_of_head [] (by simp) ?_
  rw [List.drop_left, List.append_assoc, List.cons_append, sentencePattern,
    run_plus_char (by simpa using noStops x List.mem_cons_self), greedy]

theorem match_rejected (nonempty : w ≠ []) (noStops : NoStops w) (hasRun : d ≠ []) (stops : Stops d)
    (ends : RunEnds rest) (notAhead : ¬ Ahead rest) :
    matchLength sentencePattern (w ++ d ++ rest) = none := by
  obtain ⟨x, w, rfl⟩ := List.exists_cons_of_ne_nil nonempty
  have inner : ∀ y ∈ w, (!isStop y) = true := fun y member => by
    simpa using noStops y (.tail _ member)
  have runEnds := head_run hasRun stops rest
  rw [matchLength_eq_none, List.append_assoc, List.cons_append, sentencePattern,
    run_plus_char (by simpa using noStops x List.mem_cons_self)]
  refine greedy_eq_nil inner runEnds fun v isSuffix => ?_
  cases v with
  | nil =>
    rw [List.nil_append]
    exact sentenceEnd_rejects hasRun stops ends notAhead
  | cons y v =>
    refine sentenceEnd_inside ?_ (by simp [hasRun])
    simpa using inner y (isSuffix.subset List.mem_cons_self)

theorem match_stop {c : Char} (stop : isStop c = true) (rest : Text) :
    matchLength sentencePattern (c :: rest) = none := by
  rw [matchLength_eq_none, sentencePattern, run_plus_char_end (by simpa using stop)]

theorem sentencePattern_nonEmpty : NonEmpty sentencePattern :=
  nonEmpty_of_consumes (.inl (.inl trivial))

/-- The pattern skips a segment whose run is followed by something else. -/
theorem finditer_rejected (noStops : NoStops w) (hasRun : d ≠ []) (stops : Stops d)
    (ends : RunEnds rest) (notAhead : ¬ Ahead rest) :
    finditer sentencePattern (w ++ d ++ rest) =
      (finditer sentencePattern rest).map (Span.shift (w ++ d).length) := by
  have inRun : finditer sentencePattern (d ++ rest) =
      (finditer sentencePattern rest).map (Span.shift d.length) := by
    refine finditer_skip fun v nonempty isSuffix => ?_
    obtain ⟨y, v, rfl⟩ := List.exists_cons_of_ne_nil nonempty
    exact match_stop (stops y (isSuffix.subset List.mem_cons_self)) _
  have inWords : finditer sentencePattern (w ++ (d ++ rest)) =
      (finditer sentencePattern (d ++ rest)).map (Span.shift w.length) := by
    refine finditer_skip fun v nonempty isSuffix => ?_
    rw [← List.append_assoc]
    exact match_rejected nonempty (fun y member => noStops y (isSuffix.subset member))
      hasRun stops ends notAhead
  rw [List.append_assoc, inWords, inRun, List.map_map, Span.shift_shift, List.length_append,
    Nat.add_comm]

end Segment

/-! ## All sentences of a text -/

theorem exists_segment {text : Text} (nonempty : text ≠ []) (ends : RunEnds text) :
    ∃ w d rest, text = w ++ d ++ rest ∧ w ≠ [] ∧ NoStops w ∧ Stops d ∧ RunEnds rest ∧
      (d = [] → rest = []) := by
  obtain ⟨w, more, rfl, noStops, runStarts⟩ := exists_run (fun c => !isStop c) text
  obtain ⟨d, rest, rfl, stops, runEnds⟩ := exists_run isStop more
  refine ⟨w, d, rest, (List.append_assoc _ _ _).symm, ?_, ?_, stops, runEnds, ?_⟩
  · rintro rfl
    cases more : d ++ rest with
    | nil => simp [more] at nonempty
    | cons c tail =>
      rw [more] at runStarts
      rw [List.nil_append, more] at ends
      have stop := runStarts c rfl
      simp [ends c rfl] at stop
  · exact fun c member => by simpa using noStops c member
  · rintro rfl
    cases rest with
    | nil => rfl
    | cons c tail =>
      have stop := runStarts c rfl
      simp [runEnds c rfl] at stop

/-- Every text is read segment by segment. -/
theorem segment_induction {motive : Text → Prop} (nil : motive [])
    (leading : ∀ c rest, isStop c = true →
      finditer sentencePattern (c :: rest) = (finditer sentencePattern rest).map (Span.shift 1) →
      motive rest → motive (c :: rest))
    (last : ∀ w, w ≠ [] → NoStops w → finditer sentencePattern w = [⟨w, 0, w.length⟩] → motive w)
    (accepted : ∀ w d rest, w ≠ [] → NoStops w → d ≠ [] → Stops d → RunEnds rest → Ahead rest →
      finditer sentencePattern (w ++ d ++ rest) =
        ⟨w ++ d, 0, (w ++ d).length⟩ ::
          (finditer sentencePattern rest).map (Span.shift (w ++ d).length) →
      motive rest → motive (w ++ d ++ rest))
    (rejected : ∀ w d rest, w ≠ [] → NoStops w → d ≠ [] → Stops d → RunEnds rest →
      ¬ Ahead rest →
      finditer sentencePattern (w ++ d ++ rest) =
        (finditer sentencePattern rest).map (Span.shift (w ++ d).length) →
      motive rest → motive (w ++ d ++ rest))
    (text : Text) : motive text := by
  induction length : text.length using Nat.strong_induction_on generalizing text with
  | _ n shorter =>
    subst length
    cases shape : text with
    | nil => exact nil
    | cons c tail =>
      cases stop : isStop c with
      | true =>
        have unread := finditer_unmatched (match_stop stop tail)
        exact leading c tail stop unread (shorter tail.length (by simp [shape]) tail rfl)
      | false =>
        rw [← shape]
        have notEmpty : text ≠ [] := by simp [shape]
        have notStop : RunEnds text := by
          intro x member
          rw [shape] at member
          cases member
          exact stop
        obtain ⟨w, d, rest, rfl, nonempty, noStops, stops, ends, whole⟩ :=
          exists_segment notEmpty notStop
        have positive := List.length_pos_of_ne_nil nonempty
        have motiveRest : motive rest := shorter rest.length (by simp; omega) rest rfl
        by_cases hasRun : d = []
        · -- no stop follows the words, so they are the last
          subst hasRun
          have atEnd := whole rfl
          subst atEnd
          rw [List.append_nil, List.append_nil]
          refine last w nonempty noStops ?_
          rw [finditer_matched positive (match_last nonempty noStops)]
          simp
        · by_cases ahead : Ahead rest
          · refine accepted w d rest nonempty noStops hasRun stops ends ahead ?_ motiveRest
            have matched := match_accepted nonempty noStops hasRun stops ends ahead
            rw [finditer_matched (by simp; omega) matched, List.take_left, List.drop_left]
          · exact rejected w d rest nonempty noStops hasRun stops ends ahead
              (finditer_rejected noStops hasRun stops ends ahead) motiveRest

/-! ## Where sentences start and end -/

/-- The text before the position ends with a stop. -/
def AfterStop (text : Text) (k : Nat) : Prop :=
  ∃ i c, k = i + 1 ∧ text[i]? = some c ∧ isStop c = true

theorem AfterStop.append {text : Text} {k : Nat} (after : AfterStop text k) (before : Text) :
    AfterStop (before ++ text) (k + before.length) := by
  obtain ⟨i, c, rfl, read, stop⟩ := after
  refine ⟨i + before.length, c, by omega, ?_, stop⟩
  rw [List.getElem?_append_right (Nat.le_add_left _ _), Nat.add_sub_cancel, read]

theorem afterStop_length {w d : Text} (nonempty : d ≠ []) (stops : Stops d) (rest : Text) :
    AfterStop (w ++ d ++ rest) (w ++ d).length := by
  have positive := List.length_pos_of_ne_nil nonempty
  refine ⟨(w ++ d).length - 1, d.getLast nonempty, by simp; omega, ?_,
    stops _ (List.getLast_mem nonempty)⟩
  rw [List.getElem?_append_left (by simp; omega), ← List.getLast?_eq_getElem?,
    List.getLast?_append_of_ne_nil _ nonempty, List.getLast?_eq_some_getLast nonempty]

/-- A sentence starts at the start of the text or behind a stop, and ends behind
a stop or at the end of the text. -/
theorem sentence_edges {text : Text} : ∀ s ∈ finditer sentencePattern text,
    (s.start = 0 ∨ AfterStop text s.start) ∧ (s.stop = text.length ∨ AfterStop text s.stop) := by
  -- what the tail of the text says of its sentences, behind a part that ends with a stop
  have moved : ∀ before rest, AfterStop (before ++ rest) before.length →
      (∀ s ∈ finditer sentencePattern rest,
        (s.start = 0 ∨ AfterStop rest s.start) ∧ (s.stop = rest.length ∨ AfterStop rest s.stop)) →
      ∀ s ∈ (finditer sentencePattern rest).map (Span.shift before.length),
        (s.start = 0 ∨ AfterStop (before ++ rest) s.start) ∧
          (s.stop = (before ++ rest).length ∨ AfterStop (before ++ rest) s.stop) := by
    intro before rest ends inner s member
    obtain ⟨t, present, rfl⟩ := List.mem_map.mp member
    obtain ⟨start, stop⟩ := inner t present
    refine ⟨.inr ?_, ?_⟩
    · rcases start with zero | after
      · rwa [Span.shift_start, zero, Nat.zero_add]
      · exact after.append before
    · rcases stop with atEnd | after
      · exact .inl (by rw [Span.shift_stop, atEnd, List.length_append, Nat.add_comm])
      · exact .inr (after.append before)
  induction text using segment_induction with
  | nil => simp
  | leading c rest stop whole ih =>
    rw [whole]
    exact moved [c] rest ⟨0, c, rfl, rfl, stop⟩ ih
  | last w nonempty noStops whole =>
    rw [whole]
    simp
  | accepted w d rest nonempty noStops hasRun stops ends ahead whole ih =>
    rw [whole]
    intro s member
    rcases List.mem_cons.mp member with rfl | later
    · exact ⟨.inl rfl, .inr (afterStop_length hasRun stops rest)⟩
    · exact moved (w ++ d) rest (afterStop_length hasRun stops rest) ih s later
  | rejected w d rest nonempty noStops hasRun stops ends notAhead whole ih =>
    rw [whole]
    exact moved (w ++ d) rest (afterStop_length hasRun stops rest) ih

/-! ## Texts that the sentences cover -/

/-- The text does not start with a stop, and every run of stops in it is
followed by whitespace or ends the text. -/
def Readable (text : Text) : Prop :=
  RunEnds text ∧
    List.IsChain (fun a b => isStop a = true → isStop b = true ∨ isSpace b = true) text

/-- Some sentence covers the position. -/
def InSentence (text : Text) (i : Nat) : Prop :=
  ∃ s ∈ finditer sentencePattern text, s.start ≤ i ∧ i < s.stop

theorem readable_of_noStops {w : Text} (noStops : NoStops w) : Readable w := by
  refine ⟨fun c member => noStops c (List.mem_of_head? member), ?_⟩
  refine List.isChain_iff_getElem.mpr fun i inside stop => ?_
  rw [noStops _ (List.getElem_mem _)] at stop
  cases stop

theorem readable_segment {w d rest : Text} (nonempty : w ≠ []) (noStops : NoStops w)
    (hasRun : d ≠ []) (stops : Stops d) (ends : RunEnds rest) :
    Readable (w ++ d ++ rest) ↔ Ahead rest ∧ Readable rest := by
  have chainRun : List.IsChain (fun a b => isStop a = true → isStop b = true ∨ isSpace b = true)
      (w ++ d) := by
    refine List.isChain_iff_getElem.mpr fun i inside stop => .inl ?_
    by_cases early : i + 1 < w.length
    · rw [List.getElem_append_left (by omega)] at stop
      rw [noStops _ (List.getElem_mem _)] at stop
      cases stop
    · rw [List.getElem_append_right (by omega)]
      exact stops _ (List.getElem_mem _)
  have head : RunEnds (w ++ d ++ rest) := by
    obtain ⟨c, w, rfl⟩ := List.exists_cons_of_ne_nil nonempty
    intro x member
    cases member
    exact noStops c List.mem_cons_self
  have border : (w ++ d).getLast? = some (d.getLast hasRun) := by
    rw [List.getLast?_append_of_ne_nil _ hasRun, List.getLast?_eq_some_getLast hasRun]
  have lastStop := stops _ (List.getLast_mem hasRun)
  simp only [Readable, List.isChain_append, head, chainRun, ends, border, true_and,
    Option.mem_some_iff, forall_eq', lastStop, forall_true_left]
  constructor
  · rintro ⟨chain, follows⟩
    refine ⟨fun c member => (follows c member).resolve_left ?_, chain⟩
    simp [ends c member]
  · rintro ⟨ahead, chain⟩
    exact ⟨chain, fun c member => .inr (ahead c member)⟩

theorem inSentence_shift (before : Text) {rest : Text} {i : Nat}
    (inside : ∃ s ∈ (finditer sentencePattern rest).map (Span.shift before.length),
      s.start ≤ i ∧ i < s.stop) : before.length ≤ i ∧ InSentence rest (i - before.length) := by
  obtain ⟨s, member, start, stop⟩ := inside
  obtain ⟨t, present, rfl⟩ := List.mem_map.mp member
  simp only [Span.shift_start, Span.shift_stop] at start stop
  exact ⟨by omega, t, present, by omega, by omega⟩

/-- The sentences of a readable text cover it. -/
theorem inSentence_of_readable {text : Text} (readable : Readable text) {i : Nat}
    (inside : i < text.length) : InSentence text i := by
  induction text using segment_induction generalizing i with
  | nil => simp at inside
  | leading c rest stop whole ih =>
    have notStop := readable.1 c rfl
    rw [stop] at notStop
    cases notStop
  | last w nonempty noStops whole =>
    exact ⟨_, by rw [whole]; exact List.mem_singleton_self _, Nat.zero_le i, inside⟩
  | accepted w d rest nonempty noStops hasRun stops ends ahead whole ih =>
    rw [InSentence, whole]
    by_cases first : i < (w ++ d).length
    · exact ⟨_, List.mem_cons_self, Nat.zero_le i, first⟩
    · have readableRest := ((readable_segment nonempty noStops hasRun stops ends).mp readable).2
      rw [List.length_append] at inside
      obtain ⟨s, present, start, stop⟩ := ih readableRest (i := i - (w ++ d).length) (by omega)
      refine ⟨_, .tail _ (List.mem_map_of_mem present), ?_, ?_⟩ <;>
        simp only [Span.shift_start, Span.shift_stop] <;> omega
  | rejected w d rest nonempty noStops hasRun stops ends notAhead whole ih =>
    exact absurd ((readable_segment nonempty noStops hasRun stops ends).mp readable).1 notAhead

/-- A text is readable when its sentences cover the stops in it. -/
theorem readable_of_stops {text : Text}
    (covered : ∀ i c, text[i]? = some c → isStop c = true → InSentence text i) :
    Readable text := by
  induction text using segment_induction with
  | nil => exact readable_of_noStops (by simp [NoStops])
  | leading c rest stop whole ih =>
    have first := covered 0 c rfl stop
    rw [InSentence, whole] at first
    exact absurd (inSentence_shift [c] first).1 (by simp)
  | last w nonempty noStops whole => exact readable_of_noStops noStops
  | accepted w d rest nonempty noStops hasRun stops ends ahead whole ih =>
    refine (readable_segment nonempty noStops hasRun stops ends).mpr ⟨ahead, ih ?_⟩
    intro i c read stop
    have read' : (w ++ d ++ rest)[(w ++ d).length + i]? = some c := by
      rw [List.getElem?_append_right (Nat.le_add_right _ _), Nat.add_sub_cancel_left, read]
    have inWhole := covered _ c read' stop
    rw [InSentence, whole] at inWhole
    obtain ⟨s, member, start, bound⟩ := inWhole
    -- a stop of the rest is in a sentence of the rest
    rcases List.mem_cons.mp member with rfl | later
    · simp only at bound
      omega
    · have := (inSentence_shift _ ⟨s, later, start, bound⟩).2
      rwa [Nat.add_sub_cancel_left] at this
  | rejected w d rest nonempty noStops hasRun stops ends notAhead whole ih =>
    -- a rejected stop is in no sentence
    obtain ⟨c, d, rfl⟩ := List.exists_cons_of_ne_nil hasRun
    have first := covered w.length c (by simp) (stops c List.mem_cons_self)
    rw [InSentence, whole] at first
    have := (inSentence_shift _ first).1
    rw [List.length_append, List.length_cons] at this
    omega

end SupportPilot.Rag
