import Mathlib.Data.List.Chain
import ReactiveView.Template.Segment
/-!
# How a text is cut into placeholders

`Template.parse?` reads the placeholders of a text the way a leftmost-first engine reads the
pattern `\{?\{\{(.+?)\}\}\}?`: at the leftmost place where a match can start it takes a third
opening brace when a placeholder can open after it, then the shortest inside that a `}}`
follows, then a third closing brace when one stands there. `Marks raw inner` says this of one
placeholder on its own characters, and `HasMarker` says that a text holds a match at all.

The main result is `parse?_tiles`: `parse?` gives `none` exactly for a text without a match, and
otherwise segments that write the text out again, at least one of them a placeholder, with
literal runs that are never empty nor next to each other, and every placeholder a match whose
path is its trimmed capture. It rests on one law per function: `inside` finds exactly the
shortest inside (`inside_sound`, `inside_of_marks`), `markerAt` reads a match and finds one
wherever one starts (`markerAt_marks`, `markerAt_isSome`), and each step of `scanFrom` keeps
the rest.
-/
namespace ReactiveView.Template

set_option autoImplicit false

/-! ## Matches of the pattern -/

/-- What `.+` stands for: at least one character, and no line feed. -/
def Line (inner : List Char) : Prop := inner ≠ [] ∧ '\n' ∉ inner

/-- The lazy `.+?` stops at the first `}}` after its first character: no `}}` starts inside it
past the first character, nor at its last one. -/
def ClosesFirst (inner : List Char) : Prop := ¬ ['}', '}'] <:+: inner.tail ++ ['}']

/-- `raw` is a match of `\{?\{\{(.+?)\}\}\}?` with capture `inner`, read from its first
character by a leftmost-first engine: two or three opening braces, the third taken whenever a
placeholder can open after it (only `{{{}}` alone opens with two); the shortest line that a
`}}` follows; at most one more closing brace. -/
def Marks (raw inner : List Char) : Prop :=
  ∃ opening closing, raw = opening ++ inner ++ '}' :: '}' :: closing ∧
    (opening = ['{', '{', '{'] ∨
      opening = ['{', '{'] ∧ (inner.head? = some '{' → inner = ['{'] ∧ closing = [])) ∧
    (closing = [] ∨ closing = ['}']) ∧ Line inner ∧ ClosesFirst inner

/-- The text holds a match of the pattern: `{{`, then a line, then `}}`. -/
def HasMarker (text : String) : Prop :=
  ∃ pre inner post, text.toList = pre ++ '{' :: '{' :: (inner ++ '}' :: '}' :: post) ∧ Line inner

/-- Literal runs are never next to each other. -/
def Separated (segments : List Segment) : Prop :=
  segments.IsChain fun a b => a.isPlaceholder = true ∨ b.isPlaceholder = true

/-- How `parse?` cuts a text: the segments write the text out again, at least one of them is a
placeholder, literal runs are neither empty nor next to each other, and each placeholder is a
match whose path is its capture with the blanks at both ends dropped. -/
structure Tiles (text : String) (segments : List Segment) : Prop where
  cover : String.join (segments.map Segment.source) = text
  placeholder : ∃ s ∈ segments, s.isPlaceholder = true
  literal_ne : ∀ t, Segment.literal t ∈ segments → t ≠ ""
  separated : Separated segments
  marks : ∀ path raw, Segment.placeholder path raw ∈ segments →
    ∃ inner, Marks raw.toList inner ∧ path = Text.trim (String.ofList inner)

theorem Line.tail {c d : Char} {i : List Char} (line : Line (c :: d :: i)) : Line (d :: i) :=
  ⟨List.cons_ne_nil d i, fun mem => line.2 (List.mem_cons_of_mem c mem)⟩

theorem Line.head_ne {c : Char} {i : List Char} (line : Line (c :: i)) : c ≠ '\n' :=
  fun same => line.2 (same ▸ List.mem_cons_self ..)

theorem ClosesFirst.tail {c : Char} {i : List Char} (closes : ClosesFirst (c :: i)) :
    ClosesFirst i := by
  intro inner
  apply closes
  cases i with
  | nil => exact inner
  | cons d rest => exact inner.trans (List.suffix_cons d (rest ++ ['}'])).isInfix

theorem closesFirst_single (c : Char) : ClosesFirst [c] := by
  intro inner
  have := inner.length_le
  simp at this

/-- In front of a `}}`, a line starts with `}}` exactly when it does with one `}` put after it:
the `}}` that `ClosesFirst` of a longer line rules out. -/
theorem starts_close_iff {d : Char} {i after : List Char} :
    (∃ a, (d :: i) ++ '}' :: '}' :: after = '}' :: '}' :: a) ↔ ['}', '}'] <+: (d :: i) ++ ['}'] := by
  cases i with
  | nil => simp [eq_comm]
  | cons e rest => simp [eq_comm]

/-! ## The inside of a placeholder -/

/-- `inside` gives a line that `}}` follows and that closes at its first `}}`. -/
theorem inside_sound : ∀ {cs i after : List Char}, inside cs = some (i, after) →
    cs = i ++ '}' :: '}' :: after ∧ Line i ∧ ClosesFirst i
  | [], _, _, found => by simp [inside] at found
  | c :: rest, i, after, found => by
    by_cases hc : c = '\n'
    · subst hc
      simp [inside] at found
    by_cases close : ∃ a, rest = '}' :: '}' :: a
    · obtain ⟨a, rfl⟩ := close
      rw [inside.eq_3 _ _ hc, Option.some.injEq, Prod.mk.injEq] at found
      obtain ⟨rfl, rfl⟩ := found
      exact ⟨rfl, ⟨List.cons_ne_nil c [], by simpa [eq_comm] using hc⟩, closesFirst_single c⟩
    rw [inside.eq_4 _ _ hc fun a same => close ⟨a, same⟩] at found
    obtain ⟨⟨i', a⟩, below, same⟩ := Option.map_eq_some_iff.1 found
    simp only [Prod.mk.injEq] at same
    obtain ⟨rfl, rfl⟩ := same
    obtain ⟨rfl, line, closes⟩ := inside_sound below
    refine ⟨rfl, ⟨List.cons_ne_nil c i', ?_⟩, ?_⟩
    · simpa [eq_comm] using And.intro hc line.2
    -- a `}}` at the front of the rest would have closed the placeholder one character earlier
    obtain ⟨d, i, rfl⟩ := List.exists_cons_of_ne_nil line.1
    intro inner
    rcases List.infix_cons_iff.1 inner with front | later
    · exact close (starts_close_iff.2 front)
    · exact closes later

/-- A line that closes at its first `}}` is what `inside` finds in front of that `}}`. -/
theorem inside_of_marks : ∀ {i : List Char} (after : List Char), Line i → ClosesFirst i →
    inside (i ++ '}' :: '}' :: after) = some (i, after)
  | [], _, line, _ => absurd rfl line.1
  | [c], after, line, _ => inside.eq_3 c after line.head_ne
  | c :: d :: i, after, line, closes => by
    have front : ∀ a, (d :: i) ++ '}' :: '}' :: after = '}' :: '}' :: a → False :=
      fun a same => closes (starts_close_iff.1 ⟨a, same⟩).isInfix
    rw [List.cons_append, inside.eq_4 _ _ line.head_ne front,
      inside_of_marks after line.tail closes.tail]
    rfl

/-- In front of a `}}` that a line leads up to, `inside` finds a placeholder. -/
theorem inside_isSome : ∀ {i : List Char} (after : List Char), Line i →
    (inside (i ++ '}' :: '}' :: after)).isSome
  | [], _, line => absurd rfl line.1
  | [c], after, line => by rw [List.singleton_append, inside.eq_3 c after line.head_ne]; rfl
  | c :: d :: i, after, line => by
    by_cases close : ∃ a, (d :: i) ++ '}' :: '}' :: after = '}' :: '}' :: a
    · obtain ⟨a, same⟩ := close
      rw [List.cons_append, same, inside.eq_3 c a line.head_ne]
      rfl
    rw [List.cons_append, inside.eq_4 _ _ line.head_ne fun a same => close ⟨a, same⟩,
      Option.isSome_map]
    exact inside_isSome after line.tail

/-- Two lines that close at their first `}}` and stand in front of a `}}` in one list are the
same line. -/
theorem line_unique {i j a b : List Char} (same : i ++ '}' :: '}' :: a = j ++ '}' :: '}' :: b)
    (hi : Line i) (ci : ClosesFirst i) (hj : Line j) (cj : ClosesFirst j) : i = j := by
  have found := inside_of_marks a hi ci
  rw [same, inside_of_marks b hj cj, Option.some.injEq, Prod.mk.injEq] at found
  exact found.1.symm

/-- A match has one capture: how the engine reads a match is fixed by its characters. -/
theorem Marks.unique {raw i j : List Char} (hi : Marks raw i) (hj : Marks raw j) : i = j := by
  obtain ⟨o, c, rfl, opens, -, line, closes⟩ := hi
  obtain ⟨o', c', same, opens', -, line', closes'⟩ := hj
  -- with the same opening, both captures are the shortest line before a `}}`
  have equal : o = o' → i = j := by
    rintro rfl
    simp only [List.append_assoc, List.append_cancel_left_eq] at same
    exact line_unique (by simpa using same) line closes line' closes'
  -- two braces open only `{{{}}` alone, which three braces cannot open
  have mixed : ∀ {i j c c' : List Char}, Line i → Line j →
      (j.head? = some '{' → j = ['{'] ∧ c' = []) →
      ['{', '{', '{'] ++ i ++ '}' :: '}' :: c = ['{', '{'] ++ j ++ '}' :: '}' :: c' → False := by
    intro i j c c' line line' greedy same
    obtain ⟨d, j, rfl⟩ := List.exists_cons_of_ne_nil line'.1
    simp only [List.cons_append, List.nil_append, List.cons.injEq, true_and] at same
    obtain ⟨rfl, rfl, rfl⟩ : d = '{' ∧ j = [] ∧ c' = [] := by
      obtain ⟨rfl, -⟩ := same
      simpa using greedy rfl
    have length := congrArg List.length same.2
    simp only [List.length_append, List.length_cons, List.length_nil] at length
    exact line.1 (List.eq_nil_of_length_eq_zero (by omega))
  rcases opens with rfl | ⟨rfl, greedy⟩ <;> rcases opens' with rfl | ⟨rfl, greedy'⟩
  · exact equal rfl
  · exact (mixed line line' greedy' same).elim
  · exact (mixed line' line greedy same.symm).elim
  · exact equal rfl

/-! ## One placeholder -/

/-- The characters a closed placeholder covers: its opening, inside and `}}`, and a third
closing brace when one stands there. -/
theorem take_width (opening inner after : List Char) :
    (opening ++ inner ++ '}' :: '}' :: after).take
        (opening.length + inner.length + 2 + if after.head? = some '}' then 1 else 0) =
      opening ++ inner ++ '}' :: '}' :: if after.head? = some '}' then ['}'] else [] := by
  rw [List.append_assoc, Nat.add_assoc, Nat.add_assoc, List.take_length_add_append,
    List.take_length_add_append]
  cases after with
  | nil => simp
  | cons c rest => by_cases hc : c = '}' <;> simp [hc]

theorem closeMarker_eq_some {opening : Nat} {rest : List Char} {m : Marker}
    (h : closeMarker opening rest = some m) :
    ∃ after, inside rest = some (m.inside, after) ∧
      m.width = opening + m.inside.length + 2 + if after.head? = some '}' then 1 else 0 := by
  obtain ⟨⟨i, after⟩, found, rfl⟩ := Option.map_eq_some_iff.1 h
  exact ⟨after, found, rfl⟩

/-- When the third of three opening braces starts no placeholder but the second pair does, the
inside is that third brace alone, closed by a `}}` that no third closing brace follows. -/
theorem closeMarker_two_of_three {rest : List Char} {m : Marker}
    (three : closeMarker 3 rest = none) (two : closeMarker 2 ('{' :: rest) = some m) :
    ∃ after, m.inside = ['{'] ∧ rest = '}' :: '}' :: after ∧ after.head? ≠ some '}' ∧
      m.width = 5 := by
  obtain ⟨after, found, width⟩ := closeMarker_eq_some two
  obtain ⟨same, line, closes⟩ := inside_sound found
  obtain ⟨c, i, hi⟩ := List.exists_cons_of_ne_nil line.1
  rw [hi, List.cons_append, List.cons.injEq] at same
  obtain ⟨rfl, same⟩ := same
  -- a longer inside would be one after the third brace too
  have short : i = [] := by
    by_contra long
    obtain ⟨d, i', rfl⟩ := List.exists_cons_of_ne_nil long
    rw [hi] at line closes
    rw [closeMarker, same, inside_of_marks after line.tail closes.tail] at three
    simp at three
  subst short
  -- a third closing brace would close a placeholder after the third opening one
  have plain : after.head? ≠ some '}' := by
    intro brace
    obtain ⟨a, rfl⟩ : ∃ a, after = '}' :: a := by
      cases after with
      | nil => cases brace
      | cons c a => exact ⟨a, by simpa using brace⟩
    simp [closeMarker, same, inside.eq_3] at three
  exact ⟨after, hi, same, plain, by rw [width, hi, if_neg plain]; rfl⟩

/-- What `markerAt` reads is a match of the pattern, with its inside as the capture. -/
theorem markerAt_marks {cs : List Char} {m : Marker} (h : markerAt cs = some m) :
    Marks (cs.take m.width) m.inside := by
  unfold markerAt at h
  split at h
  next rest =>
    split at h
    next m' three =>
      cases h
      obtain ⟨after, found, width⟩ := closeMarker_eq_some three
      obtain ⟨rfl, line, closes⟩ := inside_sound found
      refine ⟨['{', '{', '{'], if after.head? = some '}' then ['}'] else [], ?_, .inl rfl, ?_,
        line, closes⟩
      · rw [width, ← take_width ['{', '{', '{']]
        rfl
      · split <;> simp
    next three =>
      obtain ⟨after, hi, same, plain, width⟩ := closeMarker_two_of_three three h
      have line : Line m.inside := by simp [Line, hi]
      refine ⟨['{', '{'], [], ?_, .inr ⟨rfl, fun _ => ⟨hi, rfl⟩⟩, .inl rfl, line,
        by rw [hi]; exact closesFirst_single '{'⟩
      rw [width, same, hi]
      rfl
  next rest notThree =>
    obtain ⟨after, found, width⟩ := closeMarker_eq_some h
    obtain ⟨rfl, line, closes⟩ := inside_sound found
    refine ⟨['{', '{'], if after.head? = some '}' then ['}'] else [], ?_,
      .inr ⟨rfl, fun brace => ?_⟩, ?_, line, closes⟩
    · rw [width, ← take_width ['{', '{']]
      rfl
    · -- a third opening brace would have been read by the first pattern
      obtain ⟨c, i, hi⟩ := List.exists_cons_of_ne_nil line.1
      rw [hi, List.head?_cons, Option.some.injEq] at brace
      subst brace
      exact (notThree (i ++ '}' :: '}' :: after) (by rw [hi, List.cons_append])).elim
    · split <;> simp
  next => cases h

/-- Wherever `{{`, a line and `}}` start, `markerAt` reads a placeholder. -/
theorem markerAt_isSome {inner : List Char} (post : List Char) (line : Line inner) :
    (markerAt ('{' :: '{' :: (inner ++ '}' :: '}' :: post))).isSome := by
  obtain ⟨c, i, rfl⟩ := List.exists_cons_of_ne_nil line.1
  by_cases brace : c = '{'
  · subst brace
    rw [List.cons_append, markerAt.eq_1]
    split
    · rfl
    · simpa [closeMarker] using inside_isSome post line
  · rw [List.cons_append, markerAt.eq_2 _ fun rest same => brace (List.cons.inj same).1]
    simpa [closeMarker] using inside_isSome post line

/-! ## The scan -/

/-- What a list of segments writes. -/
def sources (segments : List Segment) : List Char := segments.flatMap (·.source.toList)

@[simp] theorem sources_nil : sources [] = [] := rfl

@[simp] theorem sources_cons (s : Segment) (rest : List Segment) :
    sources (s :: rest) = s.source.toList ++ sources rest := rfl

/-- The characters of a segment stand in what its list writes. -/
theorem source_infix {s : Segment} {segments : List Segment} (mem : s ∈ segments) :
    s.source.toList <:+: sources segments := by
  obtain ⟨before, after, rfl⟩ := List.append_of_mem mem
  exact ⟨sources before, sources after, by simp [sources]⟩

theorem sources_flush (pending : List Char) (rest : List Segment) :
    sources (flush pending rest) = pending.reverse ++ sources rest := by
  unfold flush
  split
  next empty => simp [List.isEmpty_iff.1 empty]
  next => simp [Segment.source]

theorem mem_flush {pending : List Char} {rest : List Segment} {s : Segment}
    (mem : s ∈ flush pending rest) :
    s ∈ rest ∨ pending ≠ [] ∧ s = .literal (String.ofList pending.reverse) := by
  unfold flush at mem
  split at mem
  next => exact .inl mem
  next nonempty =>
    rcases List.mem_cons.1 mem with rfl | later
    · exact .inr ⟨by simpa using nonempty, rfl⟩
    · exact .inl later

theorem mem_flush_of_mem {pending : List Char} {rest : List Segment} {s : Segment}
    (mem : s ∈ rest) : s ∈ flush pending rest := by
  unfold flush
  split
  · exact mem
  · exact List.mem_cons_of_mem _ mem

/-- A literal run placed before a placeholder, or before nothing, stays separated. -/
theorem Separated.flush {pending : List Char} {rest : List Segment} (separated : Separated rest)
    (follows : ∀ s ∈ rest.head?, s.isPlaceholder = true) : Separated (flush pending rest) := by
  unfold Template.flush
  split
  · exact separated
  · exact separated.cons fun s mem => .inr (follows s mem)

theorem scanFrom_sources (pending cs : List Char) :
    sources (scanFrom pending cs) = pending.reverse ++ cs := by
  induction pending, cs using scanFrom.induct with
  | case1 pending => rw [scanFrom.eq_1, sources_flush]; rfl
  | case2 pending c rest m found _ below =>
    rw [scanFrom.eq_2, found, sources_flush, sources_cons, below]
    simp [Segment.source]
  | case3 pending c rest _ below =>
    rw [scanFrom.eq_2, ‹markerAt (c :: rest) = none›]
    simp [below]

theorem scanFrom_separated (pending cs : List Char) : Separated (scanFrom pending cs) := by
  induction pending, cs using scanFrom.induct with
  | case1 pending =>
    rw [scanFrom.eq_1]
    exact Separated.flush List.isChain_nil (by simp)
  | case2 pending c rest m found _ below =>
    rw [scanFrom.eq_2, found]
    exact Separated.flush (below.cons fun _ _ => .inl rfl) (by simp [Segment.isPlaceholder])
  | case3 pending c rest missing below =>
    rw [scanFrom.eq_2, missing]
    exact below

theorem scanFrom_literal_ne (pending cs : List Char) :
    ∀ t, Segment.literal t ∈ scanFrom pending cs → t ≠ "" := by
  induction pending, cs using scanFrom.induct with
  | case1 pending =>
    intro t mem
    rw [scanFrom.eq_1] at mem
    rcases mem_flush mem with nothing | ⟨ne, same⟩
    · cases nothing
    · cases same
      simpa [String.ofList_eq_empty_iff] using ne
  | case2 pending c rest m found _ below =>
    intro t mem
    rw [scanFrom.eq_2, found] at mem
    rcases mem_flush mem with later | ⟨ne, same⟩
    · rcases List.mem_cons.1 later with same | later
      · cases same
      · exact below t later
    · cases same
      simpa [String.ofList_eq_empty_iff] using ne
  | case3 pending c rest missing below =>
    rw [scanFrom.eq_2, missing]
    exact below

theorem scanFrom_marks (pending cs : List Char) :
    ∀ path raw, Segment.placeholder path raw ∈ scanFrom pending cs →
      ∃ inner, Marks raw.toList inner ∧ path = Text.trim (String.ofList inner) := by
  induction pending, cs using scanFrom.induct with
  | case1 pending =>
    intro path raw mem
    rw [scanFrom.eq_1] at mem
    rcases mem_flush mem with nothing | ⟨-, same⟩
    · cases nothing
    · cases same
  | case2 pending c rest m found _ below =>
    intro path raw mem
    rw [scanFrom.eq_2, found] at mem
    rcases mem_flush mem with later | ⟨-, same⟩
    · rcases List.mem_cons.1 later with same | later
      · cases same
        exact ⟨m.inside, by simpa using markerAt_marks found, rfl⟩
      · exact below path raw later
    · cases same
  | case3 pending c rest missing below =>
    rw [scanFrom.eq_2, missing]
    exact below

/-- A scan that finds no placeholder passed places where none starts. -/
theorem markerAt_eq_none_of_scanFrom (pending cs : List Char)
    (plain : ∀ s ∈ scanFrom pending cs, s.isPlaceholder = false) :
    ∀ {pre post : List Char}, cs = pre ++ post → markerAt post = none := by
  induction pending, cs using scanFrom.induct with
  | case1 pending =>
    intro pre post same
    rw [(List.append_eq_nil_iff.1 same.symm).2]
    rfl
  | case2 pending c rest m found _ below =>
    rw [scanFrom.eq_2, found] at plain
    dsimp only at plain
    have placeholder := plain _ (mem_flush_of_mem (List.mem_cons_self ..))
    simp [Segment.isPlaceholder] at placeholder
  | case3 pending c rest missing below =>
    rw [scanFrom.eq_2, missing] at plain
    intro pre post same
    cases pre with
    | nil => rw [← List.nil_append post, ← same]; exact missing
    | cons d pre =>
      rw [List.cons_append, List.cons.injEq] at same
      exact below plain same.2

/-- A text has a placeholder exactly when it holds a match of the pattern. -/
theorem hasPlaceholder_iff (text : String) : hasPlaceholder text = true ↔ HasMarker text := by
  constructor
  · intro has
    obtain ⟨s, mem, placeholder⟩ := List.any_eq_true.1 has
    cases s with
    | literal t => cases placeholder
    | placeholder path raw =>
      obtain ⟨inner, ⟨opening, closing, shape, opens, -, line, -⟩, -⟩ :=
        scanFrom_marks [] text.toList path raw mem
      -- the placeholder's characters stand in the text where it was cut
      obtain ⟨before, after, written⟩ := source_infix mem
      rw [scan, scanFrom_sources, List.reverse_nil, List.nil_append] at written
      simp only [Segment.source, shape] at written
      rcases opens with rfl | ⟨rfl, -⟩
      · exact ⟨before ++ ['{'], inner, closing ++ after, by simp [← written], line⟩
      · exact ⟨before, inner, closing ++ after, by simp [← written], line⟩
  · rintro ⟨pre, inner, post, split, line⟩
    by_contra plain
    have missing := markerAt_eq_none_of_scanFrom [] text.toList
      (fun s mem => by simpa using fun h => plain (List.any_eq_true.2 ⟨s, mem, h⟩)) split
    have found := markerAt_isSome post line
    simp [missing] at found

/-- The segments of a text that has a placeholder cut it as `Tiles` says. -/
theorem scan_tiles {text : String} (has : hasPlaceholder text = true) : Tiles text (scan text) where
  cover := by
    apply String.ext
    rw [String.toList_join, List.flatMap_map]
    exact scanFrom_sources [] text.toList
  placeholder := List.any_eq_true.1 has
  literal_ne := scanFrom_literal_ne [] text.toList
  separated := scanFrom_separated [] text.toList
  marks := scanFrom_marks [] text.toList

/-- `parse?` gives `none` exactly for a text that holds no match of `\{?\{\{(.+?)\}\}\}?`, and
otherwise segments that tile the text: they write it out again, at least one is a placeholder,
literal runs are neither empty nor adjacent, and every placeholder is a match whose path is its
trimmed capture. -/
theorem parse?_tiles (text : String) :
    match parse? text with
    | none => ¬ HasMarker text
    | some segments => HasMarker text ∧ Tiles text segments := by
  unfold parse?
  by_cases has : hasPlaceholder text = true
  · rw [if_pos has]
    exact ⟨(hasPlaceholder_iff text).1 has, scan_tiles has⟩
  · rw [if_neg has]
    exact fun marker => has ((hasPlaceholder_iff text).2 marker)

end ReactiveView.Template
