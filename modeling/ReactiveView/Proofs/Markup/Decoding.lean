import ReactiveView.Proofs.Markup.Escapes
/-!
# Decoding at byte offsets

The program decodes character references on byte offsets: it finds the next `&` and the next
`;` by their offsets into the UTF-8 encoding and slices the text between them, and a slice off a
character boundary would panic. `decodeSliced` is that decoder; `decodeEntities` is the same
decoder one character at a time.

Every offset the decoder slices at is a boundary: the text before a character ends at one
(`charsBefore?_byteLength`), and the decoder only slices before an `&` or a `;` it found, or
one byte past them, and both are one byte long. So each pass of the loop succeeds and does what
`decodeChars` does at that `&` (`decodeStep_spec`), the loop never panics and gives what
`decodeChars` gives (`decodeLoop_eq`), and the two decoders agree on every text
(`decodeSliced_eq`).

`decodeEntities_undoes_escaping` adds the laws of `Proofs.Markup.Escapes`: decoding undoes
both escapes of the writer.
-/
namespace ReactiveView.Markup

set_option autoImplicit false

/-! ## Byte lengths -/

theorem byteLength_append (a b : List Char) : byteLength (a ++ b) = byteLength a + byteLength b := by
  -- the count from any start is that start plus the count from zero
  have shift : ∀ (k : Nat) (cs : List Char),
      cs.foldl (fun n c => n + c.utf8Size) k = k + byteLength cs := by
    intro k cs
    induction cs generalizing k with
    | nil => simp [byteLength]
    | cons c cs ih =>
      simp only [byteLength, List.foldl_cons] at ih ⊢
      rw [ih, ih (0 + c.utf8Size)]
      omega
  rw [byteLength, List.foldl_append, shift]
  rfl

theorem byteLength_cons (c : Char) (cs : List Char) :
    byteLength (c :: cs) = c.utf8Size + byteLength cs := by
  rw [← List.singleton_append, byteLength_append]
  simp [byteLength]

/-- The marks the decoder looks for are one byte long. -/
theorem utf8Size_amp : '&'.utf8Size = 1 := by decide

theorem utf8Size_semicolon : ';'.utf8Size = 1 := by decide

/-! ## Slicing at boundaries -/

/-- The bytes of a run of characters end on a boundary: the one after that run. -/
theorem charsBefore?_byteLength : ∀ (pre rest : List Char),
    charsBefore? (pre ++ rest) (byteLength pre) = some pre.length
  | [], rest => by cases rest <;> rfl
  | c :: pre, rest => by
    have size := c.utf8Size_pos
    obtain ⟨b, hb⟩ : ∃ b, byteLength (c :: pre) = b + 1 :=
      ⟨byteLength (c :: pre) - 1, by rw [byteLength_cons]; omega⟩
    have within : c.utf8Size ≤ b + 1 := by rw [← hb, byteLength_cons]; omega
    have remaining : b + 1 - c.utf8Size = byteLength pre := by rw [← hb, byteLength_cons]; omega
    rw [hb, List.cons_append, charsBefore?, if_pos within, remaining,
      charsBefore?_byteLength pre rest]
    rfl

theorem sliceTo_byteLength (pre rest : List Char) :
    sliceTo (pre ++ rest) (byteLength pre) = .ok pre := by
  simp [sliceTo, charsBefore?_byteLength]

theorem sliceFrom_byteLength (pre rest : List Char) :
    sliceFrom (pre ++ rest) (byteLength pre) = .ok rest := by
  simp [sliceFrom, charsBefore?_byteLength]

theorem slice_byteLength (pre mid rest : List Char) :
    slice (pre ++ mid ++ rest) (byteLength pre) (byteLength (pre ++ mid)) = .ok mid := by
  have whole : pre ++ mid ++ rest = pre ++ (mid ++ rest) := List.append_assoc ..
  simp only [slice]
  rw [charsBefore?_byteLength, whole, charsBefore?_byteLength, ← List.append_assoc]
  simp

/-! ## Finding a character -/

theorem byteFind_eq_none {c : Char} : ∀ {cs : List Char}, c ∉ cs → byteFind c cs = none
  | [], _ => rfl
  | x :: xs, missing => by
    have other : x ≠ c := (List.ne_of_not_mem_cons missing).symm
    simp [byteFind, other, byteFind_eq_none (List.not_mem_of_not_mem_cons missing)]

/-- The first occurrence of a character is found at the bytes before it. -/
theorem byteFind_first {c : Char} {post : List Char} :
    ∀ {pre : List Char}, c ∉ pre → byteFind c (pre ++ c :: post) = some (byteLength pre)
  | [], _ => by simp [byteFind, byteLength]
  | x :: xs, missing => by
    have other : x ≠ c := (List.ne_of_not_mem_cons missing).symm
    simp [byteFind, other, byteLength_cons, byteFind_first (List.not_mem_of_not_mem_cons missing)]

theorem not_mem_of_byteFind_eq_none {c : Char} :
    ∀ {cs : List Char}, byteFind c cs = none → c ∉ cs
  | [], _ => by simp
  | x :: xs, missing => by
    by_cases same : x = c
    · simp [byteFind, same] at missing
    · simp only [byteFind, same, if_false, Option.map_eq_none_iff] at missing
      simp [Ne.symm same, not_mem_of_byteFind_eq_none missing]

/-- A character found is the first occurrence, after the bytes of what precedes it. -/
theorem byteFind_eq_some {c : Char} : ∀ {cs : List Char} {b : Nat}, byteFind c cs = some b →
    ∃ pre post, cs = pre ++ c :: post ∧ c ∉ pre ∧ b = byteLength pre
  | [], _, found => by simp [byteFind] at found
  | x :: xs, b, found => by
    by_cases same : x = c
    · subst same
      simp only [byteFind, if_true, Option.some.injEq] at found
      exact ⟨[], xs, rfl, by simp, by simp [← found, byteLength]⟩
    · simp only [byteFind, same, if_false] at found
      obtain ⟨b', found', rfl⟩ := Option.map_eq_some_iff.1 found
      obtain ⟨pre, post, rfl, missing, rfl⟩ := byteFind_eq_some found'
      exact ⟨x :: pre, post, rfl, by simp [Ne.symm same, missing], (byteLength_cons x pre).symm⟩

/-! ## The name before a `;` -/

theorem untilSemicolon_eq_some : ∀ {cs name after : List Char},
    untilSemicolon cs = some (name, after) → cs = name ++ ';' :: after ∧ ';' ∉ name
  | [], _, _, found => by simp [untilSemicolon] at found
  | x :: xs, name, after, found => by
    by_cases stop : x = ';'
    · subst stop
      simp only [untilSemicolon, Option.some.injEq, Prod.mk.injEq] at found
      obtain ⟨rfl, rfl⟩ := found
      simp
    · rw [untilSemicolon.eq_3 _ _ stop] at found
      obtain ⟨⟨name', after'⟩, found', same⟩ := Option.map_eq_some_iff.1 found
      simp only [Prod.mk.injEq] at same
      obtain ⟨rfl, rfl⟩ := same
      obtain ⟨rfl, missing⟩ := untilSemicolon_eq_some found'
      simp [Ne.symm stop, missing]

theorem untilSemicolon_eq_none : ∀ {cs : List Char}, untilSemicolon cs = none → ';' ∉ cs
  | [], _ => by simp
  | x :: xs, missing => by
    by_cases stop : x = ';'
    · subst stop
      simp [untilSemicolon] at missing
    · rw [untilSemicolon.eq_3 _ _ stop, Option.map_eq_none_iff] at missing
      simp [Ne.symm stop, untilSemicolon_eq_none missing]

/-! ## One pass -/

/-- Text with no `&` decodes to itself, and then decoding goes on after it. -/
theorem decodeChars_plain : ∀ {pre : List Char} (rest : List Char),
    '&' ∉ pre → decodeChars (pre ++ rest) = pre ++ decodeChars rest
  | [], _, _ => rfl
  | x :: xs, rest, missing => by
    have other : x ≠ '&' := (List.ne_of_not_mem_cons missing).symm
    rw [List.cons_append, decodeChars.eq_3 x _ other,
      decodeChars_plain rest (List.not_mem_of_not_mem_cons missing)]
    rfl

theorem decodeChars_of_plain {cs : List Char} (missing : '&' ∉ cs) : decodeChars cs = cs := by
  simpa [decodeChars] using decodeChars_plain [] missing

/-- An `&` that starts no reference is written as it is, and decoding goes on after it. -/
theorem decodeChars_lone {post : List Char}
    (lone : ∀ name after, untilSemicolon post = some (name, after) →
      byteLength name + 1 ≤ 10 → reference? name = none) :
    decodeChars ('&' :: post) = '&' :: decodeChars post := by
  rw [decodeChars.eq_2]
  split
  next name after found =>
    split
    · next short => rw [lone name after found short]
    · rfl
  · rfl

/-- Past the `&`, the rest of the text starts one byte on. -/
theorem sliceFrom_amp (post : List Char) : sliceFrom ('&' :: post) 1 = .ok post := by
  simpa [byteLength, utf8Size_amp] using sliceFrom_byteLength ['&'] post

/-- With no `;` after it, an `&` starts no reference. -/
theorem referenceAt_none {post : List Char} (missing : ';' ∉ post) :
    referenceAt ('&' :: post) = .ok none := by
  have absent : ';' ∉ '&' :: post := by simpa using missing
  simp [referenceAt, byteFind_eq_none absent]

/-- An `&` followed by a name and a `;` starts the reference of that name when the `;` is at
most ten bytes on. -/
theorem referenceAt_cut {name after : List Char} (missing : ';' ∉ name) :
    referenceAt ('&' :: (name ++ ';' :: after)) =
      .ok (if byteLength name + 1 ≤ 10 then (reference? name).map fun c => (c, byteLength name + 1)
        else none) := by
  have stop : byteFind ';' ('&' :: (name ++ ';' :: after)) = some (byteLength name + 1) := by
    have found : byteFind ';' (('&' :: name) ++ ';' :: after) = some (byteLength ('&' :: name)) :=
      byteFind_first (by simpa using missing)
    rw [byteLength_cons, utf8Size_amp, List.cons_append] at found
    rw [found, Nat.add_comm]
  have sliced : slice ('&' :: (name ++ ';' :: after)) 1 (byteLength name + 1) = .ok name := by
    have cut := slice_byteLength ['&'] name (';' :: after)
    rw [byteLength_append, byteLength_cons, utf8Size_amp] at cut
    simpa [byteLength, utf8Size_amp, Nat.add_comm] using cut
  unfold referenceAt
  rw [stop, Option.filter_some]
  by_cases short : byteLength name + 1 ≤ 10
  · have within : decide (byteLength name + 1 ≤ 10) = true := decide_eq_true short
    rw [if_pos within, if_pos short]
    dsimp only
    rw [sliced]
    rfl
  · have beyond : ¬ decide (byteLength name + 1 ≤ 10) = true := by simpa using short
    rw [if_neg beyond, if_neg short]

/-- A pass at the first `&` writes what precedes it and the character the `&` starts, and goes
on where the reference, or the `&` alone, ends. -/
theorem decodeStep_at {pre post after : List Char} {replacement : Option (Char × Nat)}
    (found : referenceAt ('&' :: post) = .ok replacement)
    (rest : sliceFrom ('&' :: post) ((replacement.map (·.2 + 1)).getD 1) = .ok after) :
    decodeStep (pre ++ '&' :: post) (byteLength pre) =
      .ok (pre ++ [(replacement.map (·.1)).getD '&'], after) := by
  simp only [decodeStep, sliceTo_byteLength, sliceFrom_byteLength, bind, Except.bind, found, rest]
  rfl

/-- At the first `&` of a text, a pass succeeds: it writes the text before the `&` and the
character `decodeChars` writes for the `&`, and leaves the text `decodeChars` goes on with. -/
theorem decodeStep_spec {pre post : List Char} :
    ∃ c after, decodeStep (pre ++ '&' :: post) (byteLength pre) = .ok (pre ++ [c], after) ∧
      decodeChars ('&' :: post) = c :: decodeChars after := by
  -- an `&` that starts no reference is written as it is, and the pass goes on after it
  have asWritten : referenceAt ('&' :: post) = .ok none →
      decodeChars ('&' :: post) = '&' :: decodeChars post →
      ∃ c after, decodeStep (pre ++ '&' :: post) (byteLength pre) = .ok (pre ++ [c], after) ∧
        decodeChars ('&' :: post) = c :: decodeChars after :=
    fun found decoded => ⟨'&', post, decodeStep_at found (sliceFrom_amp post), decoded⟩
  cases cut : untilSemicolon post with
  | none =>
    refine asWritten (referenceAt_none (untilSemicolon_eq_none cut)) (decodeChars_lone ?_)
    intro name after found
    rw [cut] at found
    cases found
  | some split =>
    obtain ⟨name, after⟩ := split
    obtain ⟨rfl, missing⟩ := untilSemicolon_eq_some cut
    -- the reference decodes unless its `;` is too far or its name names no character
    have lone : (byteLength name + 1 ≤ 10 → reference? name = none) →
        decodeChars ('&' :: (name ++ ';' :: after)) = '&' :: decodeChars (name ++ ';' :: after) := by
      intro noName
      apply decodeChars_lone
      intro name' after' found short
      have same := cut.symm.trans found
      rw [Option.some.injEq, Prod.mk.injEq] at same
      obtain ⟨rfl, rfl⟩ := same
      exact noName short
    by_cases short : byteLength name + 1 ≤ 10
    · cases named : reference? name with
      | some c =>
        have rest : sliceFrom ('&' :: (name ++ ';' :: after)) (byteLength name + 1 + 1) =
            .ok after := by
          have sliced := sliceFrom_byteLength ('&' :: name ++ [';']) after
          rw [byteLength_append, byteLength_cons, utf8Size_amp] at sliced
          simpa [byteLength, utf8Size_semicolon, Nat.add_comm] using sliced
        have found : referenceAt ('&' :: (name ++ ';' :: after)) =
            .ok (some (c, byteLength name + 1)) := by
          rw [referenceAt_cut missing, if_pos short, named]
          rfl
        exact ⟨c, after, decodeStep_at found rest, decodeChars_reference cut short named⟩
      | none =>
        exact asWritten (by rw [referenceAt_cut missing]; simp [short, named])
          (lone fun _ => named)
    · exact asWritten (by rw [referenceAt_cut missing]; simp [short])
        (lone fun within => absurd within short)

/-! ## The whole loop -/

/-- The loop never panics, and gives what decoding one character at a time gives. -/
theorem decodeLoop_eq (cs : List Char) : decodeLoop cs = .ok (decodeChars cs) := by
  fun_induction decodeLoop cs with
  | case1 rest missing =>
    -- no `&` is left, and the rest is kept as it is
    rw [decodeChars_of_plain (not_mem_of_byteFind_eq_none missing)]
  | case2 rest start found written after step _ ih =>
    -- a pass at the first `&`, then the loop on what it left
    obtain ⟨pre, post, rfl, plain, rfl⟩ := byteFind_eq_some found
    obtain ⟨c, after', step', decoded⟩ := @decodeStep_spec pre post
    rw [step', Except.ok.injEq, Prod.mk.injEq] at step
    obtain ⟨rfl, rfl⟩ := step
    rw [ih, decodeChars_plain _ plain, decoded]
    simp [Functor.map, Except.map]
  | case3 rest start found e step =>
    obtain ⟨pre, post, rfl, -, rfl⟩ := byteFind_eq_some found
    obtain ⟨c, after', step', -⟩ := @decodeStep_spec pre post
    rw [step'] at step
    cases step

/-- The decoder that slices at byte offsets never panics, and decodes as `decodeEntities`
does. -/
theorem decodeSliced_eq (s : String) : decodeSliced s = .ok (decodeEntities s) := by
  unfold decodeSliced decodeEntities
  split
  · rw [decodeLoop_eq]
    rfl
  · next missing =>
    rw [decodeChars_of_plain (by simpa using missing), String.ofList_toList]

/-- Decoding character references undoes the escapes of the writer, for text and for attribute
values alike, and the decoder as the program writes it, slicing its text at byte offsets, ends
without a panic on every text and gives the same decoding. -/
theorem decodeEntities_undoes_escaping :
    (∀ t, decodeEntities (escapeText t) = t) ∧ (∀ t, decodeEntities (escapeAttribute t) = t) ∧
      ∀ s, decodeSliced s = .ok (decodeEntities s) :=
  ⟨decodeEntities_escapeText, decodeEntities_escapeAttribute, decodeSliced_eq⟩

end ReactiveView.Markup
