import ReactiveView.Markup.Lexeme
/-!
# Cutting written markup into lexemes

What the lexer makes of the pieces that writing puts side by side. The pieces of a tag are one
lexeme each: `<name`, `</name`, a blank, a word, `=`, a quoted string and `>`
(`cutAt_startTagOpen` … `cutAt_tagClose`), as long as what follows cannot continue them. A run
of text with no `<` in it, followed by nothing or by a `<`, is cut into lexemes that stay inside
the run and begin no tag (`scanFrom_plain`): a lexeme that does not begin with `<` never
reaches past the next `<` (`cutAt_plain`).
-/
namespace ReactiveView.Markup

set_option autoImplicit false

/-! ## Runs of characters -/

/-- A run whose members all pass `P` is taken whole when the next member fails `P`. -/
theorem takeWhile_append_stop {α : Type} {P : α → Bool} {a b : List α} (all : ∀ x ∈ a, P x = true)
    (stop : ∀ x ∈ b.head?, P x = false) : (a ++ b).takeWhile P = a := by
  rw [List.takeWhile_append_of_pos all]
  cases b with
  | nil => simp
  | cons x b => simp [stop x rfl]

/-- A run of a class stops no later than a run of a wider class. -/
theorem takeWhile_length_le {P Q : Char → Bool} (wider : ∀ x, P x = true → Q x = true) :
    ∀ l : List Char, (l.takeWhile P).length ≤ (l.takeWhile Q).length
  | [] => Nat.le_refl _
  | x :: l => by
    by_cases hp : P x = true
    · simp [hp, wider x hp, takeWhile_length_le wider l]
    · simp [hp]

/-- Where a run of `P` stops at a character that `Q` passes, a run of the wider class `Q` goes
on past it. -/
theorem takeWhile_length_lt {P Q : Char → Bool} (wider : ∀ x, P x = true → Q x = true)
    {c : Char} (hc : Q c = true) :
    ∀ l : List Char, (l.drop (l.takeWhile P).length).head? = some c →
      (l.takeWhile P).length + 1 ≤ (l.takeWhile Q).length
  | [], stop => by simp at stop
  | x :: l, stop => by
    by_cases hp : P x = true
    · simp only [List.takeWhile_cons_of_pos hp, List.takeWhile_cons_of_pos (wider x hp),
        List.length_cons, List.drop_succ_cons] at stop ⊢
      have := takeWhile_length_lt wider hc l stop
      omega
    · simp only [List.takeWhile_cons_of_neg hp, List.length_nil, List.drop_zero,
        List.head?_cons, Option.some.injEq] at stop
      subst stop
      simp [hp, hc]

/-! ## Character classes -/

theorem ne_lt_of_isTagBlank {c : Char} (blank : isTagBlank c = true) : c ≠ '<' := by
  rintro rfl
  simp [isTagBlank] at blank

/-- A word character is none of the characters that a tag is written with. -/
theorem isWordChar_cases {c : Char} (word : isWordChar c = true) :
    isTagBlank c = false ∧ c ≠ '<' ∧ c ≠ '>' ∧ c ≠ '/' ∧ c ≠ '=' ∧ c ≠ '"' ∧ c ≠ '\'' := by
  have blank : isTagBlank c = false := by
    simp only [isWordChar, Bool.and_eq_true, Bool.not_eq_true'] at word
    exact word.1
  refine ⟨blank, ?_, ?_, ?_, ?_, ?_, ?_⟩ <;> (rintro rfl; simp [isWordChar] at word)

/-! ## The lexeme at the front -/

theorem cutAt_startTagOpen {c : Char} (t : List Char) (alpha : c.isAlpha = true) :
    cutAt ('<' :: c :: t) =
      ⟨.startTagOpen, 2 + (t.takeWhile isNameChar).length, by omega⟩ := by
  have bang : c ≠ '!' := by
    rintro rfl
    simp at alpha
  have slash : c ≠ '/' := by
    rintro rfl
    simp at alpha
  simp [cutAt, bang, slash, alpha]

theorem cutAt_endTagOpen {c : Char} (t : List Char) (alpha : c.isAlpha = true) :
    cutAt ('<' :: '/' :: c :: t) =
      ⟨.endTagOpen, 3 + (t.takeWhile isNameChar).length, by omega⟩ := by
  simp [cutAt, alpha]

theorem cutAt_tagClose (t : List Char) : cutAt ('>' :: t) = ⟨.tagClose, 1, by omega⟩ := by
  simp [cutAt]

theorem cutAt_equals (t : List Char) : cutAt ('=' :: t) = ⟨.equals, 1, by omega⟩ := by
  simp [cutAt]

/-- A quoted string whose body holds neither its quote nor `<` is one lexeme. -/
theorem cutAt_doubleQuoted (v t : List Char) (noQuote : '"' ∉ v) (noLt : '<' ∉ v) :
    cutAt ('"' :: (v ++ '"' :: t)) = ⟨.doubleQuoted, v.length + 2, by omega⟩ := by
  have body : (v ++ '"' :: t).takeWhile (fun c => c != '"' && c != '<') = v := by
    refine takeWhile_append_stop (fun x mem => ?_) (by simp)
    have quote : x ≠ '"' := fun same => noQuote (same ▸ mem)
    have lt : x ≠ '<' := fun same => noLt (same ▸ mem)
    simp [quote, lt]
  simp [cutAt, quotedCut, body]

theorem cutAt_blank {c : Char} (t : List Char) (blank : isTagBlank c = true) :
    cutAt (c :: t) = ⟨.blank, 1 + (t.takeWhile isTagBlank).length, by omega⟩ := by
  simp only [isTagBlank, Bool.or_eq_true, beq_iff_eq] at blank
  rcases blank with (((rfl | rfl) | rfl) | rfl) | rfl <;> simp [cutAt, isTagBlank]

theorem cutAt_word {c : Char} (t : List Char) (word : isWordChar c = true) :
    cutAt (c :: t) = ⟨.word, 1 + (t.takeWhile isWordChar).length, by omega⟩ := by
  obtain ⟨blank, lt, gt, slash, eq, dq, sq⟩ := isWordChar_cases word
  rw [cutAt.eq_11]
  · simp [blank, word]
  all_goals simp_all

/-! ## Lexemes that do not begin with `<` -/

/-- A quoted string is closed, and of the class it was opened for, or is a lexeme of no
class. -/
theorem quotedCut_kind (q : Char) (kind : LexemeKind) (rest : List Char) :
    (quotedCut q kind rest).kind = kind ∨ (quotedCut q kind rest).kind = .unknown := by
  unfold quotedCut
  dsimp only
  split
  · split
    · exact .inl rfl
    · exact .inr rfl
  · exact .inr rfl

/-- A quoted string reaches no further than the next `<`. -/
theorem quotedCut_length_le {q : Char} (kind : LexemeKind) (rest : List Char) (hq : q ≠ '<') :
    (quotedCut q kind rest).length ≤ 1 + (rest.takeWhile (· != '<')).length := by
  have inside : ∀ x, (x != q && x != '<') = true → (x != '<') = true := by simp_all
  have within := takeWhile_length_le inside rest
  unfold quotedCut
  dsimp only
  split
  next c more after =>
    split
    next closing =>
      -- the closing quote is no `<`, so the run up to the next `<` reaches past it
      subst closing
      have past := takeWhile_length_lt inside (c := c) (by simpa using hq) rest (by rw [after]; rfl)
      simp only
      omega
    · simp only
      omega
  next =>
    simp only
    omega

/-- A lexeme that does not begin with `<` begins no tag, comment or declaration, and reaches no
further than the next `<`. -/
theorem cutAt_plain {c : Char} (t : List Char) (hc : c ≠ '<') :
    (cutAt (c :: t)).length ≤ 1 + (t.takeWhile (· != '<')).length ∧
      (cutAt (c :: t)).kind ∉ [.startTagOpen, .endTagOpen, .comment, .declaration] := by
  by_cases gt : c = '>'
  · subst gt
    simp [cutAt_tagClose]
  by_cases eq : c = '='
  · subst eq
    simp [cutAt_equals]
  by_cases dq : c = '"'
  · subst dq
    refine ⟨quotedCut_length_le (q := '"') .doubleQuoted t (by decide), ?_⟩
    rcases quotedCut_kind '"' .doubleQuoted t with k | k <;> simp [cutAt, k]
  by_cases sq : c = '\''
  · subst sq
    refine ⟨quotedCut_length_le (q := '\'') .singleQuoted t (by decide), ?_⟩
    rcases quotedCut_kind '\'' .singleQuoted t with k | k <;> simp [cutAt, k]
  by_cases closing : c = '/' ∧ t.head? = some '>'
  · -- `/>` closes a tag; `/` alone falls through to the last case
    obtain ⟨rfl, head⟩ := closing
    obtain ⟨more, rfl⟩ : ∃ more, t = '>' :: more := by
      cases t with
      | nil => simp at head
      | cons x more => simp_all
    have longer : 1 ≤ (('>' :: more).takeWhile (· != '<')).length := by simp
    exact ⟨by simp only [cutAt]; omega, by simp [cutAt]⟩
  have notClose : ∀ more, c = '/' → t ≠ '>' :: more := by
    rintro more rfl rfl
    simp at closing
  rw [cutAt.eq_11]
  · have blankWithin := takeWhile_length_le (P := isTagBlank) (Q := (· != '<'))
      (fun x blank => by simpa using ne_lt_of_isTagBlank blank) t
    have wordWithin := takeWhile_length_le (P := isWordChar) (Q := (· != '<'))
      (fun x word => by simpa using (isWordChar_cases word).2.1) t
    split
    · exact ⟨by simp only; omega, by simp⟩
    · split
      · exact ⟨by simp only; omega, by simp⟩
      · exact ⟨by simp only; omega, by simp⟩
  all_goals simp_all

/-! ## Scanning -/

/-- A lexeme cut off the front of a text, and the scan of what follows it. -/
theorem scanFrom_lexeme (off : Nat) {x : List Char} (rest : List Char) {k : LexemeKind}
    (hx : x ≠ []) (kind : (cutAt (x ++ rest)).kind = k)
    (cut : (cutAt (x ++ rest)).length = x.length) :
    scanFrom off (x ++ rest) = ⟨k, String.ofList x, off⟩ :: scanFrom (off + utf8Length x) rest := by
  obtain ⟨c, x, rfl⟩ := List.exists_cons_of_ne_nil hx
  rw [List.cons_append, scanFrom.eq_2, ← List.cons_append, cut, kind, List.take_left,
    List.drop_left]

/-- Where a run of text holds no `<` and is followed by nothing or by a `<`, its lexemes stay
inside it, begin no tag, and put together give it back. -/
theorem scanFrom_plain (q : List Char) (stop : ∀ x ∈ q.head?, x = '<') (p : List Char)
    (off : Nat) (plain : '<' ∉ p) : ∃ ls off',
      scanFrom off (p ++ q) = ls ++ scanFrom off' q ∧
      (∀ l ∈ ls, l.kind ∉ [.startTagOpen, .endTagOpen, .comment, .declaration]) ∧
      String.join (ls.map (·.text)) = String.ofList p := by
  -- strong induction on the length of the run: each lexeme takes at least one character
  induction hn : p.length using Nat.strongRecOn generalizing p off with
  | _ n ih =>
  cases p with
  | nil => exact ⟨[], off, rfl, by simp, by simp⟩
  | cons c p =>
    have hc : c ≠ '<' := fun same => plain (same ▸ List.mem_cons_self ..)
    obtain ⟨len, kind⟩ := cutAt_plain (p ++ q) hc
    -- the lexeme at the front ends inside the run, which stops where `q` starts
    have run : (p ++ q).takeWhile (· != '<') = p := by
      refine takeWhile_append_stop (fun x mem => ?_) (fun x mem => by simp [stop x mem])
      have : x ≠ '<' := fun same => plain (same ▸ List.mem_cons_of_mem c mem)
      simpa using this
    rw [run] at len
    obtain ⟨k, hk⟩ : ∃ k, (cutAt ((c :: p) ++ q)).length = k := ⟨_, rfl⟩
    have pos : 0 < k := hk ▸ (cutAt ((c :: p) ++ q)).length_pos
    have inside : k ≤ (c :: p).length := by
      have len : k ≤ 1 + p.length := hk ▸ len
      rw [List.length_cons]
      omega
    have shorter : ((c :: p).drop k).length < n := by
      rw [List.length_drop, hn]
      rw [hn] at inside
      omega
    have after : '<' ∉ (c :: p).drop k := fun mem => plain (List.mem_of_mem_drop mem)
    obtain ⟨ls, off', scan, kinds, texts⟩ :=
      ih _ shorter ((c :: p).drop k) (off + utf8Length ((c :: p).take k)) after rfl
    refine ⟨⟨(cutAt ((c :: p) ++ q)).kind, String.ofList ((c :: p).take k), off⟩ :: ls, off',
      ?_, ?_, ?_⟩
    · show scanFrom off (c :: (p ++ q)) = _
      rw [scanFrom.eq_2, ← List.cons_append, hk, List.take_append_of_le_length inside,
        List.drop_append_of_le_length inside, scan]
      rfl
    · intro l mem
      rcases List.mem_cons.1 mem with rfl | mem
      · exact kind
      · exact kinds l mem
    · rw [List.map_cons, String.join_cons, texts, ← String.ofList_append, List.take_append_drop]

end ReactiveView.Markup
