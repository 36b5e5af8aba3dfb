import ReactiveView.Proofs.Template.Placeholders
/-!
# Every cut falls between two matches

`parse?` cuts a text at the matches of `\{?\{\{(.+?)\}\}\}?` that a leftmost-first engine finds
one after the other. Nothing of a match is left on either side of a cut: no literal run holds a
match of its own (`scan_literal_plain`), and a placeholder read on its own is that one
placeholder again, with the same path (`parse?_of_marks`). The main result is
`parse?_splits_at_markers`.

Two facts carry it. The scan passes a place only when no placeholder opens there, and a match
read from that place in a shorter text would be one in the whole text too, so the places of a
literal run stay quiet in the run alone (`Quiet`, `scanFrom_literal_quiet`). And `markerAt`
reads a match of the pattern exactly, all of it and with its capture (`markerAt_of_marks`): the
converse of `markerAt_marks`.
-/
namespace ReactiveView.Template

set_option autoImplicit false

/-! ## Literal runs -/

/-- No placeholder opens at any of the first `cs.length` places of `cs ++ after`. -/
def Quiet (cs after : List Char) : Prop :=
  ∀ k < cs.length, markerAt ((cs ++ after).drop k) = none

theorem quiet_nil (after : List Char) : Quiet [] after :=
  fun k lt => absurd lt (Nat.not_lt_zero k)

/-- A place where no placeholder opens lengthens a quiet run by one character. -/
theorem Quiet.snoc {cs after : List Char} {c : Char} (quiet : Quiet cs (c :: after))
    (missing : markerAt (c :: after) = none) : Quiet (cs ++ [c]) after := by
  intro k lt
  rw [List.append_assoc, List.singleton_append]
  rw [List.length_append, List.length_singleton] at lt
  rcases Nat.lt_or_ge k cs.length with before | last
  · exact quiet k before
  · obtain rfl : k = cs.length := by omega
    rw [List.drop_left]
    exact missing

/-- A quiet run holds no match of the pattern: where one opened, `markerAt` would read a
placeholder in the longer text as well. -/
theorem Quiet.not_hasMarker {cs after : List Char} (quiet : Quiet cs after) :
    ¬ HasMarker (String.ofList cs) := by
  rintro ⟨pre, inner, post, split, line⟩
  rw [String.toList_ofList] at split
  subst split
  have missing := quiet pre.length (by simp)
  have found := markerAt_isSome (post ++ after) line
  rw [List.append_assoc, List.drop_left] at missing
  simp only [List.cons_append, List.append_assoc] at missing
  rw [missing] at found
  cases found

/-- Every literal run of a scan is quiet in front of what follows it in the text, as long as
the characters still pending when the scan starts are. -/
theorem scanFrom_literal_quiet (pending cs : List Char) (quiet : Quiet pending.reverse cs) :
    ∀ t, Segment.literal t ∈ scanFrom pending cs → ∃ after, Quiet t.toList after := by
  induction pending, cs using scanFrom.induct with
  | case1 pending =>
    intro t mem
    rw [scanFrom.eq_1] at mem
    rcases mem_flush mem with nothing | ⟨-, same⟩
    · cases nothing
    · cases same
      exact ⟨[], by rwa [String.toList_ofList]⟩
  | case2 pending c rest m found _ below =>
    intro t mem
    rw [scanFrom.eq_2, found] at mem
    rcases mem_flush mem with later | ⟨-, same⟩
    · rcases List.mem_cons.1 later with same | later
      · cases same
      · exact below (quiet_nil _) t later
    · cases same
      exact ⟨c :: rest, by rwa [String.toList_ofList]⟩
  | case3 pending c rest missing below =>
    intro t mem
    rw [scanFrom.eq_2, missing] at mem
    exact below (by simpa using quiet.snoc missing) t mem

/-- No literal run of a scan holds a placeholder. -/
theorem scan_literal_plain {text t : String} (mem : Segment.literal t ∈ scan text) :
    hasPlaceholder t = false := by
  obtain ⟨after, quiet⟩ := scanFrom_literal_quiet [] text.toList (quiet_nil _) t mem
  have plain := quiet.not_hasMarker
  rw [String.ofList_toList] at plain
  exact Bool.eq_false_iff.2 fun has => plain ((hasPlaceholder_iff t).1 has)

/-! ## One placeholder on its own -/

/-- A closing of no brace or one brace is as long as the third brace it adds to the width. -/
theorem closing_length {closing : List Char} (short : closing = [] ∨ closing = ['}']) :
    (if closing.head? = some '}' then 1 else 0) = closing.length := by
  rcases short with rfl | rfl <;> rfl

/-- On the characters of a match, `markerAt` reads that match: all of it, with its capture as
the inside. -/
theorem markerAt_of_marks {raw inner : List Char} (marks : Marks raw inner) :
    ∃ m, markerAt raw = some m ∧ m.inside = inner ∧ m.width = raw.length := by
  obtain ⟨opening, closing, rfl, opens, short, line, closes⟩ := marks
  have found := inside_of_marks closing line closes
  have extra := closing_length short
  rcases opens with rfl | ⟨rfl, greedy⟩
  · -- three braces: the inside after the third one is the capture
    refine ⟨⟨inner, 3 + inner.length + 2 + (if closing.head? = some '}' then 1 else 0),
      by omega⟩, ?_, rfl, ?_⟩
    · simp only [List.cons_append, List.nil_append, markerAt.eq_1, closeMarker, found,
        Option.map_some]
    · simp [extra]
      omega
  · by_cases brace : inner.head? = some '{'
    · -- `{{{}}` alone is read with two opening braces
      obtain ⟨rfl, rfl⟩ := greedy brace
      exact ⟨_, rfl, rfl, rfl⟩
    · have notThree : ∀ rest, inner ++ '}' :: '}' :: closing = '{' :: rest → False := by
        intro rest same
        cases inner with
        | nil => exact line.1 rfl
        | cons c i =>
          rw [List.cons_append, List.cons.injEq] at same
          exact brace (by rw [same.1]; rfl)
      refine ⟨⟨inner, 2 + inner.length + 2 + (if closing.head? = some '}' then 1 else 0),
        by omega⟩, ?_, rfl, ?_⟩
      · simp only [List.cons_append, List.nil_append, markerAt.eq_2 _ notThree, closeMarker,
          found, Option.map_some]
      · simp [extra]
        omega

/-- The text of a match scans as that one placeholder, its path the trimmed capture. -/
theorem scan_of_marks {raw : String} {inner : List Char} (marks : Marks raw.toList inner) :
    scan raw = [.placeholder (Text.trim (String.ofList inner)) raw] := by
  obtain ⟨m, found, rfl, width⟩ := markerAt_of_marks marks
  unfold scan
  cases shape : raw.toList with
  | nil =>
    obtain ⟨opening, closing, same, -⟩ := marks
    rw [shape] at same
    simp at same
  | cons c rest =>
    rw [shape] at found width
    rw [scanFrom.eq_2, found]
    dsimp only
    rw [width, List.take_length, List.drop_length, scanFrom.eq_1, ← shape, String.ofList_toList]
    rfl

/-- A placeholder's text, parsed on its own, is that placeholder again. -/
theorem parse?_of_marks {raw : String} {inner : List Char} (marks : Marks raw.toList inner) :
    parse? raw = some [.placeholder (Text.trim (String.ofList inner)) raw] := by
  have has : hasPlaceholder raw = true := by
    rw [hasPlaceholder, scan_of_marks marks]
    rfl
  rw [parse?, if_pos has, scan_of_marks marks]

/-! ## The cuts of a text -/

/-- `parse?` cuts a text only between matches: no literal run it gives holds a match of the
pattern, and every placeholder it gives is, parsed on its own, that one placeholder with the same
path. -/
theorem parse?_splits_at_markers {text : String} {segments : List Segment}
    (parsed : parse? text = some segments) :
    (∀ t, Segment.literal t ∈ segments → hasPlaceholder t = false) ∧
      ∀ path raw, Segment.placeholder path raw ∈ segments →
        parse? raw = some [.placeholder path raw] := by
  have has : hasPlaceholder text = true := by
    by_contra plain
    rw [parse?, if_neg plain] at parsed
    cases parsed
  rw [parse?, if_pos has, Option.some.injEq] at parsed
  subst parsed
  refine ⟨fun t mem => scan_literal_plain mem, fun path raw mem => ?_⟩
  obtain ⟨inner, marks, rfl⟩ := scanFrom_marks [] text.toList path raw mem
  exact parse?_of_marks marks

/-- A fourth closing brace after a placeholder of three braces is a literal run of its own, and
each cut of the text falls between two matches. -/
theorem fourth_brace_stays_literal :
    parse? "\x7b\x7b\x7ba\x7d\x7d\x7d\x7d\x7b\x7b b \x7d\x7dx" =
        some [.placeholder "a" "\x7b\x7b\x7ba\x7d\x7d\x7d", .literal "\x7d",
          .placeholder "b" "\x7b\x7b b \x7d\x7d", .literal "x"] ∧
      (∀ t, Segment.literal t ∈
          [.placeholder "a" "\x7b\x7b\x7ba\x7d\x7d\x7d", .literal "\x7d",
            .placeholder "b" "\x7b\x7b b \x7d\x7d", .literal "x"] →
          hasPlaceholder t = false) ∧
      ∀ path raw, Segment.placeholder path raw ∈
          [.placeholder "a" "\x7b\x7b\x7ba\x7d\x7d\x7d", .literal "\x7d",
            .placeholder "b" "\x7b\x7b b \x7d\x7d", .literal "x"] →
          parse? raw = some [.placeholder path raw] :=
  have parsed : parse? "\x7b\x7b\x7ba\x7d\x7d\x7d\x7d\x7b\x7b b \x7d\x7dx" =
      some [.placeholder "a" "\x7b\x7b\x7ba\x7d\x7d\x7d", .literal "\x7d",
        .placeholder "b" "\x7b\x7b b \x7d\x7d", .literal "x"] := by
    decide +kernel
  ⟨parsed, parse?_splits_at_markers parsed⟩

end ReactiveView.Template
