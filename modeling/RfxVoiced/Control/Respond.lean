import RfxVoiced.Control.Handle
import Mathlib.Data.List.Sort

/-!
# Answers as they are written

An answer is a status line, three header fields and a body of JSON. The length that the head names
is counted in bytes, whatever characters the body has.

## Main definitions

* `textOf` — the body of an answer, with the fields of an object in the order of their names
* `reasonOf`, `respond` — an answer as it is written

## Main results

* `endsFirst_of_lines` — a head of lines that are not empty ends with its last line, and not before
* `respond_read_back` — an answer is read back: its status line, its fields, and a body that is as
  long as they say
-/

namespace RfxVoiced.Control

/-- What a status code means. -/
def reasonOf : ℕ → String
  | 200 => "OK"
  | 400 => "Bad Request"
  | 401 => "Unauthorized"
  | 404 => "Not Found"
  | 409 => "Conflict"
  | 431 => "Request Header Fields Too Large"
  | _ => "Error"

def statusLine (code : ℕ) : List Char :=
  "HTTP/1.1 ".toList ++ Nat.toDigits 10 code ++ ' ' :: (reasonOf code).toList

/-- The fields of an answer with a body of so many bytes. -/
def answerFields (length : ℕ) : List (List Char × List Char) :=
  [("Content-Type".toList, "application/json".toList),
    ("Content-Length".toList, Nat.toDigits 10 length),
    ("Connection".toList, "close".toList)]

mutual

/-- A value whose objects list their fields in the order of the names, as a map keeps them. -/
def sorted : Value → Value
  | .array items => .array (sortedItems items)
  | .object fields => .object ((sortedFields fields).insertionSort fun f g => f.1 ≤ g.1)
  | v => v

def sortedItems : List Value → List Value
  | [] => []
  | v :: items => sorted v :: sortedItems items

def sortedFields : List (String × Value) → List (String × Value)
  | [] => []
  | (key, v) :: fields => (key, sorted v) :: sortedFields fields

end

/-- The body of an answer. -/
def textOf (body : Value) : List UInt8 :=
  (sorted body).write.toList.flatMap String.utf8EncodeChar

/-- An answer as it is written: the head, and the body. -/
def respond (reply : Reply) : List UInt8 :=
  (printHead (statusLine reply.1) (answerFields (textOf reply.2).length)).flatMap
    String.utf8EncodeChar ++ textOf reply.2

/-! ### Where a head ends -/

/-- A line, and what ends it. -/
def terminated (line : List UInt8) : List UInt8 := line ++ [13, 10]

/-- The end of a head is not found within a line. -/
theorem find_line {line : List UInt8} (h : 13 ∉ line) (rest : List UInt8) :
    Search.find (line ++ rest) terminator =
      (Search.find rest terminator).map (· + line.length) := by
  induction line with
  | nil => simp
  | cons b line ih =>
    obtain ⟨hb, hline⟩ := not_or.mp (mt List.mem_cons.mpr h)
    have hpre : ¬ terminator <+: b :: (line ++ rest) :=
      fun hpre => hb (List.cons_prefix_cons.mp hpre).1
    rw [List.cons_append, Search.find_cons, if_neg hpre, ih hline, Option.map_map]
    rfl

/-- It is not found where a line ends and another follows. -/
theorem find_between {b : UInt8} (hb : b ≠ 13) (rest : List UInt8) :
    Search.find (13 :: 10 :: b :: rest) terminator =
      (Search.find (b :: rest) terminator).map (· + 2) := by
  have hfirst : ¬ terminator <+: 13 :: 10 :: b :: rest := by
    intro h
    have htail := (List.cons_prefix_cons.mp (List.cons_prefix_cons.mp h).2).2
    exact hb (List.cons_prefix_cons.mp htail).1.symm
  have hsecond : ¬ terminator <+: 10 :: b :: rest := by
    intro h
    exact absurd (List.cons_prefix_cons.mp h).1 (by decide)
  rw [Search.find_cons, if_neg hfirst, Search.find_cons, if_neg hsecond, Option.map_map]
  rfl

/-- It is found behind the last line. -/
theorem find_lines {lines : List (List UInt8)} (hne : lines ≠ [])
    (hlines : ∀ line ∈ lines, line ≠ [] ∧ 13 ∉ line) :
    Search.find (lines.flatMap terminated ++ [13, 10]) terminator =
      some ((lines.flatMap terminated).length - 2) := by
  induction lines with
  | nil => exact absurd rfl hne
  | cons line lines ih =>
    obtain ⟨⟨-, hclean⟩, hrest⟩ := List.forall_mem_cons.mp hlines
    rw [List.flatMap_cons, terminated, List.append_assoc, List.append_assoc, find_line hclean]
    cases lines with
    | nil =>
      simp [Search.find_cons, terminator]
    | cons line' lines' =>
      obtain ⟨⟨hne', hclean'⟩, -⟩ := List.forall_mem_cons.mp hrest
      obtain ⟨b, line'', rfl⟩ := List.exists_cons_of_ne_nil hne'
      have hb : b ≠ 13 := fun heq => hclean' (heq ▸ List.mem_cons_self)
      have hstart : (((b :: line'') :: lines').flatMap terminated) ++ [13, 10] =
          b :: (line'' ++ [13, 10] ++ lines'.flatMap terminated ++ [13, 10]) := by
        simp [terminated]
      have hih := ih (by simp) hrest
      rw [hstart] at hih ⊢
      change (Search.find (13 :: 10 :: b :: _) terminator).map _ = _
      rw [find_between hb, hih]
      simp [terminated]
      omega

/-- **A head ends with its last line**, and not before. -/
theorem endsFirst_of_lines {lines : List (List UInt8)} (hne : lines ≠ [])
    (hlines : ∀ line ∈ lines, line ≠ [] ∧ 13 ∉ line) :
    Search.EndsFirst terminator (lines.flatMap terminated ++ [13, 10]) := by
  have hlength : 2 ≤ (lines.flatMap terminated).length := by
    obtain ⟨line, lines, rfl⟩ := List.exists_cons_of_ne_nil hne
    simp [terminated]
    omega
  have hfour : terminator.length = 4 := rfl
  apply Search.endsFirst_of_find (by decide)
  · rw [List.length_append, hfour]
    exact Nat.add_le_add_right hlength 2
  · rw [find_lines hne hlines, List.length_append, hfour]
    rfl

/-! ### Plain text -/

/-- A printable character of ASCII. -/
def IsPlain (c : Char) : Prop := 32 ≤ c.toNat ∧ c.toNat < 128

instance (c : Char) : Decidable (IsPlain c) := inferInstanceAs (Decidable (_ ∧ _))

theorem encode_plain {text : List Char} (h : ∀ c ∈ text, IsPlain c) :
    text.flatMap String.utf8EncodeChar = text.map fun c => UInt8.ofNat c.toNat := by
  induction text with
  | nil => rfl
  | cons c text ih =>
    obtain ⟨hc, htext⟩ := List.forall_mem_cons.mp h
    have hlow : c.toNat ≤ 127 := Nat.le_of_lt_succ hc.2
    rw [List.flatMap_cons, ih htext, List.map_cons]
    simp [String.utf8EncodeChar, hlow]

/-- Plain text has no line in it that ends. -/
theorem clean_of_plain {text : List Char} (h : ∀ c ∈ text, IsPlain c) :
    '\n' ∉ text ∧ 13 ∉ text.flatMap String.utf8EncodeChar := by
  constructor
  · intro hmem
    exact absurd (h _ hmem) (by decide)
  · rw [encode_plain h]
    intro hmem
    obtain ⟨c, hc, heq⟩ := List.mem_map.mp hmem
    have hplain := h c hc
    have hnat := congrArg UInt8.toNat heq
    rw [UInt8.toNat_ofNat', Nat.mod_eq_of_lt (by have := hplain.2; omega)] at hnat
    have h13 : (13 : UInt8).toNat = 13 := rfl
    have hlow := hplain.1
    omega

theorem plain_of_isDigit {c : Char} (h : c.isDigit = true) : IsPlain c := by
  simp only [Char.isDigit, Bool.and_eq_true, decide_eq_true_eq, UInt32.le_iff_toNat_le] at h
  have hlow : 48 ≤ c.toNat := h.1
  have hhigh : c.toNat ≤ 57 := h.2
  exact ⟨by omega, by omega⟩

theorem plain_of_mem_toDigits {n : ℕ} {c : Char} (h : c ∈ Nat.toDigits 10 n) : IsPlain c :=
  plain_of_isDigit (Decimal.isDigit_of_mem_toDigits h)

/-- The characters of a text are checked one by one. -/
theorem plain_of_all {text : List Char} (h : text.all (fun c => decide (IsPlain c)) = true) :
    ∀ c ∈ text, IsPlain c :=
  fun c hc => of_decide_eq_true (List.all_eq_true.mp h c hc)

theorem plain_reasonOf (code : ℕ) : ∀ c ∈ (reasonOf code).toList, IsPlain c := by
  unfold reasonOf
  split <;> exact plain_of_all (by decide +kernel)

theorem plain_statusLine (code : ℕ) : ∀ c ∈ statusLine code, IsPlain c := by
  have hversion : ∀ c ∈ "HTTP/1.1 ".toList, IsPlain c := plain_of_all (by decide +kernel)
  have hdigits : ∀ c ∈ Nat.toDigits 10 code, IsPlain c := fun c hc => plain_of_mem_toDigits hc
  have hreason : ∀ c ∈ ' ' :: (reasonOf code).toList, IsPlain c :=
    List.forall_mem_cons.mpr ⟨by decide, plain_reasonOf code⟩
  exact List.forall_mem_append.mpr ⟨List.forall_mem_append.mpr ⟨hversion, hdigits⟩, hreason⟩

theorem plain_answerFields (length : ℕ) :
    ∀ f ∈ answerFields length, (∀ c ∈ f.1 ++ f.2, IsPlain c) ∧ ':' ∉ f.1 := by
  have htype : (∀ c ∈ "Content-Type".toList ++ "application/json".toList, IsPlain c) ∧
      ':' ∉ "Content-Type".toList := ⟨plain_of_all (by decide +kernel), by decide +kernel⟩
  have hlength : (∀ c ∈ "Content-Length".toList, IsPlain c) ∧ ':' ∉ "Content-Length".toList :=
    ⟨plain_of_all (by decide +kernel), by decide +kernel⟩
  have hconnection : (∀ c ∈ "Connection".toList ++ "close".toList, IsPlain c) ∧
      ':' ∉ "Connection".toList := ⟨plain_of_all (by decide +kernel), by decide +kernel⟩
  have hdigits : ∀ c ∈ Nat.toDigits 10 length, IsPlain c := fun c hc => plain_of_mem_toDigits hc
  refine List.forall_mem_cons.mpr ⟨htype, List.forall_mem_cons.mpr ⟨?_, ?_⟩⟩
  · exact ⟨List.forall_mem_append.mpr ⟨hlength.1, hdigits⟩, hlength.2⟩
  · exact List.forall_mem_cons.mpr ⟨hconnection, fun f hf => absurd hf List.not_mem_nil⟩

theorem plain_fieldLine {f : List Char × List Char} (h : ∀ c ∈ f.1 ++ f.2, IsPlain c) :
    ∀ c ∈ fieldLine f, IsPlain c := by
  intro c hc
  simp only [fieldLine, List.mem_append, List.mem_cons] at hc
  rcases hc with hc | rfl | rfl | hc
  · exact h c (List.mem_append_left _ hc)
  · decide
  · decide
  · exact h c (List.mem_append_right _ hc)

/-! ### Reading an answer back -/

/-- The head of an answer, line by line. -/
theorem encode_printHead (requestLine : List Char) (fields : List (List Char × List Char)) :
    (printHead requestLine fields).flatMap String.utf8EncodeChar =
      ((requestLine :: fields.map fieldLine).map fun line =>
        line.flatMap String.utf8EncodeChar).flatMap terminated ++ [13, 10] := by
  have hline : ∀ line : List Char, (line ++ ['\r', '\n']).flatMap String.utf8EncodeChar =
      terminated (line.flatMap String.utf8EncodeChar) := by
    intro line
    rw [List.flatMap_append]
    rfl
  rw [printHead, List.flatMap_append, List.flatMap_append, List.flatMap_assoc, List.flatMap_map]
  simp only [hline]
  rfl

/-- The head of an answer of this length ends with its last line. -/
theorem endsFirst_answer (code length : ℕ) :
    Search.EndsFirst terminator
      ((printHead (statusLine code) (answerFields length)).flatMap String.utf8EncodeChar) := by
  rw [encode_printHead]
  apply endsFirst_of_lines (by simp)
  intro line hline
  obtain ⟨text, htext, rfl⟩ := List.mem_map.mp hline
  have hplain : (∀ c ∈ text, IsPlain c) ∧ text ≠ [] := by
    rcases List.mem_cons.mp htext with rfl | htext
    · refine ⟨plain_statusLine code, ?_⟩
      exact List.append_ne_nil_of_right_ne_nil _ (List.cons_ne_nil _ _)
    · obtain ⟨f, hf, rfl⟩ := List.mem_map.mp htext
      exact ⟨plain_fieldLine (plain_answerFields length f hf).1, by simp [fieldLine]⟩
  refine ⟨?_, (clean_of_plain hplain.1).2⟩
  rw [encode_plain hplain.1]
  simpa using hplain.2

theorem not_isWhiteSpace_of_isDigit {c : Char} (h : c.isDigit = true) : isWhiteSpace c = false := by
  simp only [Char.isDigit, Bool.and_eq_true, decide_eq_true_eq, UInt32.le_iff_toNat_le] at h
  have hlow : 48 ≤ c.toNat := h.1
  have hhigh : c.toNat ≤ 57 := h.2
  simp [isWhiteSpace]
  omega

theorem trim_of_clean {text : List Char} (h : ∀ c ∈ text, isWhiteSpace c = false) :
    trim text = text := by
  have hfront : text.dropWhile isWhiteSpace = text := by
    cases text with
    | nil => rfl
    | cons c text =>
      rw [List.dropWhile_cons_of_neg]
      simp [h c List.mem_cons_self]
  have hback : text.rdropWhile isWhiteSpace = text := by
    rw [List.rdropWhile_eq_self_iff]
    intro hne
    simp [h _ (List.getLast_mem hne)]
  rw [trim, hfront, hback]

/-- The length that an answer names is read as it was meant. -/
theorem contentLength_answerFields {length : ℕ} (h : length < 2 ^ 64) :
    contentLength (Table.collect ((answerFields length).map normal)) = length := by
  have htrim : trim (Nat.toDigits 10 length) = Nat.toDigits 10 length :=
    trim_of_clean fun c hc => not_isWhiteSpace_of_isDigit (Decimal.isDigit_of_mem_toDigits hc)
  have hconnection : normal ("Connection".toList, "close".toList) =
      ("connection".toList, "close".toList) := by decide +kernel
  have hname : (trim "Content-Length".toList).map Char.toLower = "content-length".toList := by
    decide +kernel
  have hlength : normal ("Content-Length".toList, Nat.toDigits 10 length) =
      ("content-length".toList, Nat.toDigits 10 length) := Prod.ext hname htrim
  have hother : "content-length".toList ≠ "connection".toList := by decide +kernel
  -- The last field is another one, and the one before is the length.
  have hlookup : (Table.collect ((answerFields length).map normal)).lookup
      "content-length".toList = some (Nat.toDigits 10 length) := by
    rw [answerFields, List.map_cons, List.map_cons, List.map_cons, hconnection, hlength]
    simp only [Table.collect, List.map_nil, List.foldl_cons, List.foldl_nil]
    rw [Table.lookup_insert, if_neg hother, Table.lookup_insert, if_pos rfl]
  rw [contentLength, hlookup, Option.bind_some, Decimal.parse_toDigits h, Option.getD_some]

/-- **An answer is read back.** Whatever is answered, what is written ends its head once and where
the body begins; the head has the status line and the fields that were meant, and no others, and
names the length of what follows it; and what follows is the text of the answer. -/
theorem respond_read_back (reply : Reply) (h : (textOf reply.2).length < 2 ^ 64) :
    ∃ head, respond reply = head ++ textOf reply.2 ∧ Search.EndsFirst terminator head ∧
      (parseHead head).requestLine = statusLine reply.1 ∧
      (parseHead head).headers =
        Table.collect ((answerFields (textOf reply.2).length).map normal) ∧
      contentLength (parseHead head).headers = (textOf reply.2).length ∧
      Utf8.lossy (textOf reply.2) = (sorted reply.2).write.toList := by
  have hfields : ∀ f ∈ answerFields (textOf reply.2).length,
      '\n' ∉ f.1 ∧ ':' ∉ f.1 ∧ '\n' ∉ f.2 := by
    intro f hf
    obtain ⟨hplain, hname⟩ := plain_answerFields _ f hf
    obtain ⟨hfirst, hsecond⟩ := List.forall_mem_append.mp hplain
    exact ⟨(clean_of_plain hfirst).1, hname, (clean_of_plain hsecond).1⟩
  have hparse := parseHead_encode (statusLine reply.1) _ (clean_of_plain (plain_statusLine _)).1
    hfields
  refine ⟨_, rfl, endsFirst_answer _ _, ?_, ?_, ?_, Utf8.lossy_encode _⟩
  · rw [hparse]
  · rw [hparse]
  · rw [hparse]
    exact contentLength_answerFields h

/-- The refusal of an unknown key is read back as what it is. -/
theorem respond_read_back_unknownKey :
    ∃ head, respond unknownKey = head ++ textOf unknownKey.2 ∧
      Search.EndsFirst terminator head ∧
      (parseHead head).requestLine = "HTTP/1.1 401 Unauthorized".toList ∧
      (parseHead head).headers.lookup "content-type".toList = some "application/json".toList ∧
      (parseHead head).headers.lookup "connection".toList = some "close".toList := by
  obtain ⟨head, hwrite, hends, hline, hfields, -⟩ :=
    respond_read_back unknownKey (by decide +kernel)
  refine ⟨head, hwrite, hends, hline.trans (by decide +kernel), ?_, ?_⟩
  · rw [hfields]
    decide +kernel
  · rw [hfields]
    decide +kernel

end RfxVoiced.Control
