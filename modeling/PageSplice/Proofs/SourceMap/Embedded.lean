-- SUMMARY: Maps in comments: a comment is one line that ends where it should, and holds its map.
import PageSplice.Proofs.Charset
import PageSplice.Proofs.Json
import PageSplice.Proofs.SourceMap.Reference
import PageSplice.SourceMap.Embedded

/-!
# Maps in comments

A map is written as JSON, encoded in UTF-8 and then in base64, and stands in a
comment. Each step is undone when the comment is read, so the map comes back as
it was, with its members in their order. Whatever texts the map holds, the comment
is one line of printable ASCII that can stand inside of its element: it opens no
tag, and a comment of a style sheet is closed at its end only. Only a map with an
integer of more digits than are written has no comment.
-/

namespace PageSplice.SourceMap

-- ---------------------------------------------------------------------------
-- The text of a comment
-- ---------------------------------------------------------------------------

def payload (map : SourceMap) : Text :=
  Base64.encode (Charset.Utf8.encode (Json.Value.obj map).render)

/-- Whether a character is a printable one of ASCII that opens no tag. -/
def IsPlain (c : Char) : Prop := 0x20 ≤ c.toNat ∧ c.toNat < 0x7F ∧ c ≠ '<'

instance (c : Char) : Decidable (IsPlain c) := inferInstanceAs (Decidable (_ ∧ _ ∧ _))

theorem isPlain_of_all {s : Text} (h : s.all (IsPlain ·) = true) : ∀ c ∈ s, IsPlain c :=
  fun c hc => of_decide_eq_true (List.all_eq_true.1 h c hc)

theorem mem_payload {c : Char} {map : SourceMap} (h : c ∈ payload map) :
    c ∈ Base64.alphabet ∨ c = '=' := by
  by_contra hnot
  obtain ⟨hdigits, hpad⟩ := not_or.1 hnot
  exact Base64.not_mem_encode hdigits hpad _ h

/-- The digits stand between fixed texts. -/
theorem comment_eq_payload (style : CommentStyle) (map : SourceMap) :
    ∃ opener close, (∀ c ∈ opener ++ close, IsPlain c) ∧ (close = [] ∨ close = " */".toList) ∧
      comment style map = opener ++ payload map ++ close ∧
      ∀ s, payload? (opener ++ s) = some (Text.before ' ' s) := by
  cases style with
  | script =>
    exact ⟨"//# sourceMappingURL=data:application/json;charset=utf-8;base64,".toList, [],
      isPlain_of_all (by decide), .inl rfl, (List.append_nil _).symm, fun _ => rfl⟩
  | css =>
    exact ⟨"/*# sourceMappingURL=data:application/json;charset=utf-8;base64,".toList, " */".toList,
      isPlain_of_all (by decide), .inr rfl, rfl, fun _ => rfl⟩

/-- A comment is printable ASCII and opens no tag. -/
theorem isPlain_comment {style : CommentStyle} {map : SourceMap} {c : Char}
    (h : c ∈ comment style map) : IsPlain c := by
  obtain ⟨opener, close, hplain, -, heq, -⟩ := comment_eq_payload style map
  rw [heq, List.append_assoc, List.mem_append, List.mem_append] at h
  rcases h with h | h | h
  · exact hplain c (List.mem_append_left close h)
  · have hdigits : ∀ c ∈ '=' :: Base64.alphabet, IsPlain c := isPlain_of_all (by decide)
    exact hdigits c (List.mem_cons.2 (mem_payload h).symm)
  · exact hplain c (List.mem_append_right opener h)

/-- A comment of a style sheet is closed by its last two characters only. -/
theorem closed_comment_css {map : SourceMap} {front back : Text}
    (h : comment .css map = front ++ '*' :: '/' :: back) : back = [] := by
  obtain ⟨body, heq, hstar⟩ : ∃ body, comment .css map = '/' :: '*' :: '#' :: (body ++ ['*', '/']) ∧
      '*' ∉ '#' :: body := by
    refine ⟨" sourceMappingURL=data:application/json;charset=utf-8;base64,".toList ++ payload map ++
      [' '], ?_, ?_⟩
    · rw [List.append_assoc _ [' ']]
      rfl
    · have hpayload : '*' ∉ payload map := fun hmem => absurd (mem_payload hmem) (by decide)
      simp [hpayload]
  rw [heq] at h
  rcases front with _ | ⟨a, _ | ⟨b, front⟩⟩
  · cases h
  · cases h
  · simp only [List.cons_append, List.cons.injEq] at h
    obtain ⟨-, -, h⟩ := h
    rw [← List.cons_append] at h
    rcases List.append_eq_append_iff.1 h with ⟨x, -, hx⟩ | ⟨x, hbody, hx⟩
    · have hlength := congrArg List.length hx
      simp only [List.length_append, List.length_cons, List.length_nil] at hlength
      exact List.eq_nil_of_length_eq_zero (by omega)
    · rcases x with _ | ⟨c, x⟩
      · exact (List.cons.inj (List.cons.inj hx).2).2
      · obtain ⟨rfl, -⟩ := List.cons.inj hx
        exact absurd (hbody ▸ List.mem_append_right front List.mem_cons_self) hstar

-- ---------------------------------------------------------------------------
-- Reading it back
-- ---------------------------------------------------------------------------

theorem payload?_comment (style : CommentStyle) (map : SourceMap) :
    payload? (comment style map) = some (payload map) := by
  obtain ⟨opener, close, -, hclose, heq, hread⟩ := comment_eq_payload style map
  have hspace : ∀ c ∈ payload map, decide (c ≠ ' ') = true := fun c hc => by
    refine decide_eq_true ?_
    rintro rfl
    exact absurd (mem_payload hc) (by decide)
  rw [heq, List.append_assoc, hread, Text.before, List.takeWhile_append_of_pos hspace]
  rcases hclose with rfl | rfl
  · exact congrArg some (List.append_nil _)
  · exact congrArg some (List.append_nil _)

/-- What a comment holds is the map that it was made for. -/
theorem embedded?_comment (style : CommentStyle) {map : SourceMap}
    (h : ∀ m ∈ map, m.2.IsWhole) (hprints : (Json.Value.obj map).isPrintable = true) :
    embedded? (comment style map) = some map := by
  have hparse := Json.parse?_render (Json.Value.IsWhole.obj h) hprints
  simp only [embedded?, payload?_comment, payload, Base64.decode?_encode, Option.bind_eq_bind,
    Option.bind_some, Charset.Utf8.decode_encode, Except.toOption, hparse]

theorem printComment_of_isPrintable (style : CommentStyle) {map : SourceMap}
    (h : (Json.Value.obj map).isPrintable = true) :
    printComment style map = .ok (comment style map) := by
  rw [printComment, Json.Value.check, if_pos h]
  rfl

theorem printComment_of_long (style : CommentStyle) {map : SourceMap}
    (h : (Json.Value.obj map).isPrintable = false) :
    printComment style map = .error .longInteger := by
  rw [printComment, Json.Value.check, h]
  rfl

/-- A map of texts, integers, booleans, null, lists and objects goes into one plain line, from which it
is read back, unless it holds an integer of too many digits. -/
theorem comment_roundtrip (style : CommentStyle) {map : SourceMap}
    (h : ∀ m ∈ map, m.2.IsWhole) :
    ((Json.Value.obj map).isPrintable = true →
      ∃ line, printComment style map = .ok line ∧ (∀ c ∈ line, IsPlain c) ∧
        (style = .css → (∃ front, line = front ++ "*/".toList) ∧
          ∀ front back, line = front ++ "*/".toList ++ back → back = []) ∧
        embedded? line = some map) ∧
    ((Json.Value.obj map).isPrintable = false →
      printComment style map = .error .longInteger) := by
  refine ⟨fun hprints => ⟨_, printComment_of_isPrintable style hprints, fun c => isPlain_comment, ?_,
    embedded?_comment style h hprints⟩, printComment_of_long style⟩
  rintro rfl
  refine ⟨⟨"/*# ".toList ++ referenceKey ++ dataUrl map ++ [' '], ?_⟩, fun front back heq => ?_⟩
  · rw [List.append_assoc _ [' ']]
    rfl
  · rw [List.append_assoc] at heq
    exact closed_comment_css heq

/-- A map with a quote, a backslash, a control character, an end tag and a character above U+FFFF in its
texts, and with values in values. -/
theorem comment_roundtrip_nested :
    let map : SourceMap := [("version".toList, .int 3),
      ("sources".toList, .arr [.str "a\"b\\c\x07</script>*/\n𝄞".toList, .null]),
      ("names".toList, .arr []),
      ("\u00E9".toList, .obj [("offset".toList, .int (-120)), ("last".toList, .bool true),
        ("".toList, .obj [])])]
    (∀ m ∈ map, m.2.IsWhole) ∧ ∃ line, printComment .css map = .ok line ∧
      (∀ c ∈ line, IsPlain c) ∧ embedded? line = some map := by
  intro map
  have hwhole : ∀ m ∈ map, m.2.IsWhole := by
    simp only [map, List.forall_mem_cons]
    refine ⟨.int 3, .arr ?_, .arr (List.forall_mem_nil _), .obj ?_, List.forall_mem_nil _⟩
    · exact List.forall_mem_cons.2 ⟨.str _, List.forall_mem_singleton.2 .null⟩
    · simp only [List.forall_mem_cons]
      exact ⟨.int _, .bool true, .obj (List.forall_mem_nil _), List.forall_mem_nil _⟩
  obtain ⟨line, hline, hplain, -, hread⟩ := (comment_roundtrip .css hwhole).1 (by decide +kernel)
  exact ⟨hwhole, line, hline, hplain, hread⟩

/-- The least number with one digit too many. -/
theorem comment_roundtrip_longInteger :
    let map : SourceMap := [("x".toList, .int (Int.pow 10 4300))]
    (∀ m ∈ map, m.2.IsWhole) ∧
      ∀ style, ¬ ∃ line, printComment style map = .ok line ∧ embedded? line = some map := by
  intro map
  have hlong : (Json.Value.obj map).isPrintable = false := by
    have hlong (digits : Nat) : Text.fitsIn digits (Int.pow 10 digits).natAbs = false := by
      rw [show (Int.pow 10 digits).natAbs = Nat.pow 10 digits from Int.natAbs_pow 10 digits]
      exact decide_eq_false (Nat.lt_irrefl _)
    rw [Json.Value.isPrintable, Json.membersPrintable, Json.Value.isPrintable]
    exact Bool.and_eq_false_imp.2 fun h => absurd h (Bool.eq_false_iff.1 (hlong Text.maxDigits))
  refine ⟨List.forall_mem_singleton.2 (.int _), fun style => ?_⟩
  rintro ⟨line, hline, -⟩
  cases (printComment_of_long style hlong).symm.trans hline

end PageSplice.SourceMap
