import Mathlib.Data.Set.Finite.List
import ModuleLoader.Proofs.Parsing
import ModuleLoader.Proofs.Symbols
import ModuleLoader.Proofs.Utf8

/-!
# How long texts are

The length of a text is counted in bytes. What is taken out of a text is no longer than the text: a
string of a script, with its escapes resolved, the text that bytes encode, and what base64 stands
for. Percent encoding makes a text at most three times as long. There are finitely many texts of a
length.

Results:
1. `size_specifier`: what a script imports from is no longer than the script.
2. `size_ofUtf8?`: bytes and the text that they encode.
3. `length_decode`: base64 holds no more bytes than it has symbols.
4. `finite_size_le`: finitely many texts have at most so many bytes.
-/

namespace ModuleLoader

namespace Text

/-- The length of a text in bytes. -/
def size (cs : List Char) : Nat := (utf8 cs).length

theorem size_append (cs ds : List Char) : size (cs ++ ds) = size cs + size ds := by
  rw [size, Url.utf8_append, List.length_append]
  rfl

theorem size_cons (c : Char) (cs : List Char) : size (c :: cs) = size [c] + size cs :=
  size_append [c] cs

theorem size_pos (c : Char) : 0 < size [c] := List.length_pos_iff.2 (Url.utf8_ne_nil c)

theorem size_le_of_sublist {cs ds : List Char} (h : cs.Sublist ds) : size cs ≤ size ds :=
  (List.Sublist.flatMap h _).length_le

/-- Every character takes a byte. -/
theorem length_le_size (cs : List Char) : cs.length ≤ size cs := by
  induction cs with
  | nil => exact Nat.le_refl _
  | cons c cs ih =>
    have hpos := size_pos c
    rw [List.length_cons, size_cons]
    omega

theorem size_le_three_mul_encode (set : Url.EncodeSet) (cs : List Char) :
    size (Url.encode set cs) ≤ 3 * size cs := by
  induction cs with
  | nil => exact Nat.le_refl _
  | cons c cs ih =>
    have hbyte : ∀ bs : Bytes, size (bs.flatMap Url.encodeByte) = 3 * bs.length := by
      intro bs
      induction bs with
      | nil => rfl
      | cons b bs ih =>
        obtain ⟨high, low, hb, -⟩ := Url.exists_encodeByte b
        rw [List.flatMap_cons, size_append, ih, size, hb]
        simp only [List.length_cons, List.length_nil]
        omega
    have hchar : size (Url.encodeChar set c) ≤ 3 * size [c] := by
      unfold Url.encodeChar
      split
      next => rw [hbyte]; exact Nat.le_refl _
      next => omega
    have hcons : Url.encode set (c :: cs) = Url.encodeChar set c ++ Url.encode set cs := rfl
    rw [hcons, size_append, size_cons]
    omega

/-! ## Finitely many texts -/

theorem finite_char : Finite Char :=
  Finite.of_injective (fun c : Char => c.val.toFin) fun _ _ h =>
    Char.ext (UInt32.toFin_inj.1 h)

theorem finite_size_le (n : Nat) : {s : String | size s.toList ≤ n}.Finite := by
  have := finite_char
  refine ((List.finite_length_le Char n).image String.ofList).subset fun s hs => ?_
  exact ⟨s.toList, Nat.le_trans (length_le_size _) hs, String.ofList_toList⟩

/-! ## Bytes and the texts that they encode -/

/-- Bytes that all encode a text are as many as the bytes of that text. -/
theorem size_ofUtf8? {bytes : Bytes} {text : String} (h : ofUtf8? bytes = some text) :
    size text.toList = bytes.length := congrArg List.length (ofUtf8?_eq_some.mp h)

end Text

/-! ## Base64 -/

namespace Base64

open Text (Bytes)

theorem length_le_encode (bytes : Bytes) : bytes.length ≤ (encode bytes).length := by
  induction bytes using encode.induct with
  | case4 a b c rest ih =>
    rw [encode]
    simp only [List.length_append, List.length_cons, List.length_nil]
    omega
  | _ => simp [encode]

/-- A text stands for no more bytes than it has symbols. -/
theorem length_decode {text bytes : Bytes} (h : decode text = .ok bytes) :
    bytes.length ≤ text.length := by
  obtain rfl := decode_iff_encode.mp h
  exact length_le_encode bytes

end Base64

/-! ## Scripts -/

namespace Script

open Text (size size_append size_cons size_pos size_le_of_sublist)

/-- The body of a string stands at the head of the text. -/
theorem prefix_stringBody {quote : Char} {cs body : List Char} (h : stringBody? quote cs = some body) :
    body <+: cs := by
  induction cs using stringBody?.induct quote generalizing body with
  | case1 => cases h
  | case2 cs =>
    unfold stringBody? at h
    rw [if_pos rfl] at h
    cases h
    exact List.nil_prefix
  | case3 cs hquote =>
    unfold stringBody? at h
    rw [if_neg hquote, if_pos rfl] at h
    cases h
  | case4 hquote hline =>
    unfold stringBody? at h
    rw [if_neg hquote, if_neg hline, if_pos rfl] at h
    cases h
  | case5 cs hquote hline =>
    unfold stringBody? at h
    rw [if_neg hquote, if_neg hline, if_pos rfl] at h
    cases h
  | case6 d cs hd hquote hline ih =>
    unfold stringBody? at h
    rw [if_neg hquote, if_neg hline, if_pos rfl] at h
    dsimp only at h
    rw [if_neg hd] at h
    obtain ⟨rest, hrest, rfl⟩ := Option.map_eq_some_iff.1 h
    exact List.cons_prefix_cons.2 ⟨rfl, List.cons_prefix_cons.2 ⟨rfl, ih hrest⟩⟩
  | case7 c cs hquote hline hslash ih =>
    unfold stringBody? at h
    rw [if_neg hquote, if_neg hline, if_neg hslash] at h
    obtain ⟨rest, hrest, rfl⟩ := Option.map_eq_some_iff.1 h
    exact List.cons_prefix_cons.2 ⟨rfl, ih hrest⟩

theorem size_escaped (c : Char) : size [escaped c] ≤ size ['\\', c] := by
  have hpos := size_pos c
  have hslash : size ['\\'] = 1 := rfl
  rw [size_cons '\\', hslash]
  unfold escaped
  split
  next => decide
  next => decide
  next => decide
  next => decide
  next => omega

/-- Resolving escapes makes a text no longer. -/
theorem size_unescape (cs : List Char) : size (unescape cs) ≤ size cs := by
  induction cs using unescape.induct with
  | case1 => exact Nat.le_refl _
  | case2 => exact Nat.le_refl _
  | case3 c cs ih =>
    have hc := size_escaped c
    have hsplit : size ('\\' :: c :: cs) = size ['\\', c] + size cs := size_append ['\\', c] cs
    rw [unescape, size_cons, hsplit]
    omega
  | case4 c cs hlone hpair ih =>
    have hcons : unescape (c :: cs) = c :: unescape cs := by
      rw [unescape]
      · exact hlone
      · exact hpair
    rw [hcons, size_cons, size_cons c cs]
    omega

/-- The value of a string is no longer than the text at whose head it stands. -/
theorem size_lexeme? {cs chars : List Char} {s : String}
    (h : lexeme? cs = some (.token (.string s) chars)) : size s.toList ≤ size cs := by
  cases cs with
  | nil => cases h
  | cons c cs =>
    rw [lexeme?] at h
    split at h
    next => cases h
    split at h
    next => cases h
    split at h
    next =>
      unfold Token.ofWord at h
      dsimp only at h
      split at h <;> cases h
    split at h
    next => cases h
    split at h
    next =>
      obtain ⟨body, hbody, hsame⟩ := Option.map_eq_some_iff.1 h
      cases hsame
      rw [String.toList_ofList]
      have hunescape := size_unescape body
      have hprefix := size_le_of_sublist (prefix_stringBody hbody).sublist
      rw [size_cons]
      omega
    next =>
      obtain ⟨symbol, -, hsame⟩ := Option.map_eq_some_iff.1 h
      cases hsame

theorem size_of_mem_tokensFrom {cs : List Char} {offset : Nat} {position : Position}
    {ts : List Placed} (h : tokensFrom cs offset position = .ok ts) {s : String} {span : Span}
    (hmem : ⟨.string s, span⟩ ∈ ts) : size s.toList ≤ size cs := by
  induction cs, offset, position using tokensFrom.induct generalizing ts with
  | case1 =>
    rw [tokensFrom] at h
    cases h
    cases hmem
  | case2 offset position c cs hnone =>
    rw [tokensFrom] at h
    split at h
    next => cases h
    next l hl => cases hnone.symm.trans hl
  | case3 offset position c cs chars hskipped _ _ _ next =>
    rename_i ih
    rw [tokensFrom] at h
    split at h
    next => cases h
    next l hl =>
      cases hskipped.symm.trans hl
      exact Nat.le_trans (ih h hmem) (size_le_of_sublist (List.drop_sublist _ _))
  | case4 offset position c cs t chars htoken _ _ _ next =>
    rename_i ih
    rw [tokensFrom] at h
    split at h
    next => cases h
    next l hl =>
      cases htoken.symm.trans hl
      dsimp only at h
      cases hmore : tokensFrom ((c :: cs).drop (Lexeme.token t chars).chars.length)
          (offset + Text.byteLength (Lexeme.token t chars).chars)
          (position.advanceAll (Lexeme.token t chars).chars) with
      | error stray => rw [hmore] at h; cases h
      | ok more =>
        rw [hmore] at h
        cases h
        rcases List.mem_cons.1 hmem with heq | hmem
        · cases heq
          exact size_lexeme? htoken
        · exact Nat.le_trans (ih hmore hmem) (size_le_of_sublist (List.drop_sublist _ _))

theorem string_mem_of_import {ts : List Placed} {decl : ImportDecl}
    (h : IsStatement ts (.importFrom decl)) : ∃ span, ⟨.string decl.specifier, span⟩ ∈ ts := by
  cases h with
  | @importBare s span source ended => exact ⟨source, by simp⟩
  | @importNames ts bs s span opened closed fromWord source ended => exact ⟨source, by simp⟩

theorem string_mem_of_statements {ts : List Placed} {ss : List Statement} (h : AreStatements ts ss)
    {decl : ImportDecl} (hmem : .importFrom decl ∈ ss) :
    ∃ span, ⟨.string decl.specifier, span⟩ ∈ ts := by
  induction h with
  | none => cases hmem
  | more hfirst _ ih =>
    rcases List.mem_cons.1 hmem with rfl | hmem
    · exact (string_mem_of_import hfirst).imp fun _ hin => List.mem_append_left _ hin
    · exact (ih hmem).imp fun _ hin => List.mem_append_right _ hin

/-- What a script imports from is no longer than the script. -/
theorem size_specifier {source : String} {program : Program} {specifier : String}
    (h : parse source = .ok program) (hmem : specifier ∈ program.specifiers) :
    size specifier.toList ≤ size source.toList := by
  obtain ⟨ts, hts, hprogram⟩ := parse_eq_ok.1 h
  rw [Program.specifiers, List.mem_eraseDups] at hmem
  obtain ⟨decl, hdecl, rfl⟩ := List.mem_map.1 hmem
  obtain ⟨statement, hstatement, hsome⟩ := List.mem_filterMap.1 hdecl
  cases statement with
  | importFrom other =>
    cases hsome
    obtain ⟨span, hin⟩ := string_mem_of_statements hprogram hstatement
    exact size_of_mem_tokensFrom hts hin
  | _ => cases hsome

end Script

end ModuleLoader
