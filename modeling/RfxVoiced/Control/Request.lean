import RfxVoiced.Control.Dispatch
import RfxVoiced.Lib.Decimal
import RfxVoiced.Lib.Search
import RfxVoiced.Lib.Utf8
import Mathlib.Data.List.DropRight

/-!
# Requests

A request is read from its connection a piece at a time: first its head, up to an empty line, and
then a body that is as long as the head says. Bytes of the body may come with the last piece of the
head, and the end of the head may be cut anywhere.

## Main definitions

* `Chunk`, `Reads` — what a connection delivers, read by read
* `receive` — the reader
* `Request` — what the rest of the handler is given
* `whole` — the request that a head and a body make, when they are known whole

## Main results

* `receive_eq_whole` — however a request is cut, it is read as when it is known whole
* `pathOf_behind_proxy` — the path is the last segment, whatever is to the left of it
* `parseHead_encode` — a head that is printed from its lines is read back
-/

namespace RfxVoiced.Control

/-! ### Text -/

/-- The characters with the property `White_Space`. -/
def isWhiteSpace (c : Char) : Bool :=
  let n := c.toNat
  (0x09 ≤ n && n ≤ 0x0D) || n == 0x20 || n == 0x85 || n == 0xA0 || n == 0x1680 ||
    (0x2000 ≤ n && n ≤ 0x200A) || n == 0x2028 || n == 0x2029 || n == 0x202F || n == 0x205F ||
    n == 0x3000

def trim (text : List Char) : List Char :=
  (text.dropWhile isWhiteSpace).rdropWhile isWhiteSpace

def dropCr (line : List Char) : List Char :=
  if line.getLast? = some '\r' then line.dropLast else line

/-- The lines of a text. A carriage return belongs to the end of a line if a line feed follows. -/
def lines (text : List Char) : List (List Char) :=
  let pieces := text.splitOn '\n'
  -- The last piece has no line feed behind it, and is a line only if there is something in it.
  pieces.dropLast.map dropCr ++ (pieces.getLast?.filter fun last => last ≠ []).toList

/-- What stands before the first separator, and what behind it. -/
def splitOnce (separator : Char) (text : List Char) : Option (List Char × List Char) :=
  if separator ∈ text then
    some (text.takeWhile (· ≠ separator), (text.dropWhile (· ≠ separator)).tail)
  else none

def splitWhitespace (text : List Char) : List (List Char) :=
  (text.splitOnP isWhiteSpace).filter (· ≠ [])

/-! ### The head -/

/-- The fields of a request, by name. -/
abbrev Headers := Table (List Char) (List Char)

/-- What stands before the body of a request. -/
structure Head where
  requestLine : List Char
  headers : Headers
  deriving DecidableEq

/-- A name and a value, as they are kept. -/
def normal (field : List Char × List Char) : List Char × List Char :=
  ((trim field.1).map Char.toLower, trim field.2)

def headerOf (line : List Char) : Option (List Char × List Char) :=
  (splitOnce ':' line).map normal

def parseHead (head : List UInt8) : Head :=
  let all := lines (Utf8.lossy head)
  ⟨all.head?.getD [], Table.collect (all.tail.filterMap headerOf)⟩

/-- How long the body is. -/
def contentLength (headers : Headers) : ℕ :=
  ((headers.lookup "content-length".toList).bind (Decimal.parse (2 ^ 64))).getD 0

/-- The last segment of a target, without its query. -/
def lastSegment (target : List Char) : List Char :=
  ((target.takeWhile (· ≠ '?')).reverse.takeWhile (· ≠ '/')).reverse

/-- The name of the message. -/
def pathOf (requestLine : List Char) : List Char :=
  lastSegment ((splitWhitespace requestLine)[1]?.getD ['/'])

/-! ### Reads -/

/-- What one read delivers, no more than its buffer holds. -/
structure Chunk where
  bytes : List UInt8
  fits : bytes.length ≤ 1024

/-- What a connection delivers, read by read. A read may fail; at the end there is nothing. -/
abbrev Reads := List (Option Chunk)

/-- Why there is no request. -/
inductive Stop where
  | failed
  | closed
  | answered (reply : Reply)

/-- What ends a head. -/
def terminator : List UInt8 := [13, 10, 13, 10]

def maxHead : ℕ := 64 * 1024

def headersTooLarge : Reply := (431, .object [("error", .string "headers too large")])

/-- Read until the end of the head is there: where it is, and what has been read. -/
def readHead (buf : List UInt8) : Reads → Except Stop (ℕ × List UInt8 × Reads)
  | [] => .error .closed
  | none :: _ => .error .failed
  | some chunk :: rd =>
    if chunk.bytes = [] then .error .closed
    else
      -- The end may have been cut, so that all that has been read is searched each time.
      match Search.find (buf ++ chunk.bytes) terminator with
      | some pos => .ok (pos + 4, buf ++ chunk.bytes, rd)
      | none =>
        -- Only a head that goes on is measured.
        if maxHead < (buf ++ chunk.bytes).length then .error (.answered headersTooLarge)
        else readHead (buf ++ chunk.bytes) rd

/-- Read until there is as much of the body as is wanted, or nothing more. -/
def readBody (want : ℕ) (body : List UInt8) : Reads → Except Stop (List UInt8)
  | [] => .ok body
  | next :: rd =>
    if want ≤ body.length then .ok body
    else
      match next with
      | none => .error .failed
      -- At the end of the stream a body that is too short is taken as it is.
      | some chunk => if chunk.bytes = [] then .ok body else readBody want (body ++ chunk.bytes) rd

/-- What the rest of the handler is given. -/
structure Request where
  path : List Char
  headers : Headers
  body : List UInt8
  deriving DecidableEq

/-- Read a request. -/
def receive (rd : Reads) : Except Stop Request := do
  let (headEnd, buf, rd) ← readHead [] rd
  let head := parseHead (buf.take headEnd)
  -- What came with the last piece of the head is the front of the body.
  let body ← readBody (contentLength head.headers) (buf.drop headEnd) rd
  .ok ⟨pathOf head.requestLine, head.headers, body⟩

/-- The request that a head and a body make, when they are known whole. -/
def whole (head body : List UInt8) : Request :=
  ⟨pathOf (parseHead head).requestLine, (parseHead head).headers, body⟩

variable {head body buf : List UInt8} {chunks : List Chunk} {more : Reads}

/-! ### Cutting a request -/

/-- **The head is read whole.** From a part of the head, however the rest of the stream is cut, the
end of the head is found where it is, and nothing of the stream is lost. -/
theorem readHead_eq (more : Reads) (hhead : Search.EndsFirst terminator head)
    (hlen : head.length ≤ maxHead) (hne : ∀ chunk ∈ chunks, chunk.bytes ≠ [])
    (hpre : buf <+: head) (hproper : buf ≠ head)
    (hstream : buf ++ chunks.flatMap Chunk.bytes = head ++ body) :
    ∃ (front : List UInt8) (rest : List Chunk), readHead buf (chunks.map some ++ more) =
        .ok (head.length, head ++ front, rest.map some ++ more) ∧
      front ++ rest.flatMap Chunk.bytes = body ∧ ∀ chunk ∈ rest, chunk.bytes ≠ [] := by
  induction chunks generalizing buf with
  | nil =>
    rw [List.flatMap_nil, List.append_nil] at hstream
    have hback : head <+: buf := ⟨body, hstream.symm⟩
    exact absurd (hpre.eq_of_length_le hback.length_le) hproper
  | cons chunk chunks ih =>
    obtain ⟨hchunk, hne⟩ := List.forall_mem_cons.mp hne
    rw [List.flatMap_cons, ← List.append_assoc] at hstream
    rw [List.map_cons, List.cons_append, readHead, if_neg hchunk]
    by_cases hwhole : head <+: buf ++ chunk.bytes
    · -- The chunk completes the head, and what it has left over belongs to the body.
      obtain ⟨front, hfront⟩ := hwhole
      have hbody : front ++ chunks.flatMap Chunk.bytes = body := by
        rw [← hfront, List.append_assoc] at hstream
        exact List.append_cancel_left hstream
      have hfour : 4 ≤ head.length := hhead.1.length_le
      have hend : head.length - terminator.length + 4 = head.length := Nat.sub_add_cancel hfour
      refine ⟨front, chunks, ?_, hbody, hne⟩
      rw [← hfront, hhead.find_append (by decide)]
      simp only [hend]
    · -- It does not, and there is room for more.
      have hpart : buf ++ chunk.bytes <+: head :=
        (List.prefix_or_prefix_of_prefix (List.prefix_append head body)
          ⟨_, hstream⟩).resolve_left hwhole
      have hshort : buf ++ chunk.bytes ≠ head := by
        rintro rfl
        exact hwhole (List.prefix_refl _)
      have hsize : ¬ maxHead < (buf ++ chunk.bytes).length :=
        not_lt.mpr (hpart.length_le.trans hlen)
      rw [hhead.find_eq_none (by decide) hpart hshort]
      simp only [if_neg hsize]
      exact ih hne hpart hshort hstream

/-- The body is read whole, however it is cut, and no more than that is read. -/
theorem readBody_eq (hne : ∀ chunk ∈ chunks, chunk.bytes ≠ [])
    (hstream : buf ++ chunks.flatMap Chunk.bytes = body) :
    readBody body.length buf (chunks.map some ++ more) = .ok body := by
  induction chunks generalizing buf with
  | nil =>
    obtain rfl : buf = body := by simpa using hstream
    cases more with
    | nil => rfl
    | cons next more => exact if_pos (le_refl _)
  | cons chunk chunks ih =>
    obtain ⟨hchunk, hne⟩ := List.forall_mem_cons.mp hne
    have hlength := congrArg List.length hstream
    rw [List.flatMap_cons, List.length_append, List.length_append] at hlength
    have hpos := List.length_pos_iff.mpr hchunk
    rw [List.map_cons, List.cons_append, readBody, if_neg (by omega)]
    simp only [if_neg hchunk]
    apply ih hne
    rw [List.append_assoc]
    exact hstream

/-- **However a request is cut, it is read as when it is known whole**, and nothing behind it is
waited for. -/
theorem receive_eq_whole (head body : List UInt8) (chunks : List Chunk) (more : Reads)
    (hhead : Search.EndsFirst terminator head) (hlen : head.length ≤ maxHead)
    (hbody : body.length = contentLength (parseHead head).headers)
    (hne : ∀ chunk ∈ chunks, chunk.bytes ≠ [])
    (hstream : chunks.flatMap Chunk.bytes = head ++ body) :
    receive (chunks.map some ++ more) = .ok (whole head body) := by
  have hnil : [] ≠ head := by
    rintro rfl
    exact absurd (List.suffix_nil.mp hhead.1) (by decide)
  obtain ⟨front, rest, hread, hrest, hne⟩ := readHead_eq more hhead hlen hne
    List.nil_prefix hnil hstream
  simp only [receive, hread, bind, Except.bind, List.take_left, List.drop_left, ← hbody,
    readBody_eq hne hrest]
  rfl

def exampleHead : List UInt8 :=
  "POST /route HTTP/1.1\r\nContent-Length: 2\r\n\r\n".toList.map Char.toUInt8

def exampleBody : List UInt8 := "{}".toList.map Char.toUInt8

/-- The end of the head is cut, and the body comes with what is left of it. -/
def examplePieces : List Chunk :=
  [⟨exampleHead.take 42, by decide⟩, ⟨exampleHead.drop 42 ++ exampleBody, by decide⟩]

theorem receive_eq_whole_route :
    receive (examplePieces.map some ++ []) = .ok (whole exampleHead exampleBody) :=
  receive_eq_whole exampleHead exampleBody examplePieces []
    (Search.endsFirst_of_find (by decide) (by decide) (by decide)) (by decide)
    (by decide +kernel) (by decide) (by decide)

/-! ### The path -/

/-- The last segment of a target, without its query, whatever is to the left of it. -/
theorem lastSegment_behind {proxied name query : List Char} (hproxied : '?' ∉ proxied)
    (hname : '?' ∉ name ∧ '/' ∉ name) (hquery : query = [] ∨ query.head? = some '?') :
    lastSegment (proxied ++ '/' :: (name ++ query)) = name := by
  have hclean : ∀ c ∈ proxied ++ '/' :: name, c ≠ '?' := by
    intro c hc
    rintro rfl
    simp [hproxied, hname.1] at hc
  have htarget : (proxied ++ '/' :: (name ++ query)).takeWhile (· ≠ '?') =
      proxied ++ '/' :: name := by
    rw [← List.cons_append, ← List.append_assoc,
      List.takeWhile_append_of_pos (by simpa using hclean)]
    rcases hquery with rfl | hquery
    · simp
    · obtain ⟨rest, rfl⟩ := List.head?_eq_some_iff.mp hquery
      simp
  have hreverse : ∀ c ∈ name.reverse, decide (c ≠ '/') = true := by
    intro c hc
    apply decide_eq_true
    rintro rfl
    exact hname.2 (List.mem_reverse.mp hc)
  rw [lastSegment, htarget, List.reverse_append, List.reverse_cons, List.append_assoc,
    List.takeWhile_append_of_pos hreverse]
  simp

theorem splitWhitespace_word {word : List Char} {c : Char} (hne : word ≠ [])
    (hword : ∀ d ∈ word, isWhiteSpace d = false) (hc : isWhiteSpace c = true) (rest : List Char) :
    splitWhitespace (word ++ c :: rest) = word :: splitWhitespace rest := by
  rw [splitWhitespace, List.splitOnP_append_cons_of_forall_mem hword c hc, List.filter_cons_of_pos]
  · rfl
  · exact decide_eq_true hne

/-- **The name of the message is the last segment of the target**, whatever a proxy has put to the
left of it. -/
theorem pathOf_behind_proxy {method proxied name query version : List Char} (hmethod : method ≠ [])
    (hwords : ∀ c ∈ method ++ proxied ++ '/' :: (name ++ query), isWhiteSpace c = false)
    (hproxied : '?' ∉ proxied) (hname : '?' ∉ name ∧ '/' ∉ name)
    (hquery : query = [] ∨ query.head? = some '?') :
    pathOf (method ++ ' ' :: ((proxied ++ '/' :: (name ++ query)) ++ ' ' :: version)) = name := by
  rw [List.append_assoc] at hwords
  obtain ⟨hfirst, hsecond⟩ := List.forall_mem_append.mp hwords
  have htarget : proxied ++ '/' :: (name ++ query) ≠ [] := by simp
  rw [pathOf, splitWhitespace_word hmethod hfirst rfl, splitWhitespace_word htarget hsecond rfl]
  exact lastSegment_behind hproxied hname hquery

/-! ### Printed heads -/

def fieldLine (field : List Char × List Char) : List Char := field.1 ++ ':' :: ' ' :: field.2

/-- A head, with its fields in order. -/
def printHead (requestLine : List Char) (fields : List (List Char × List Char)) : List Char :=
  (requestLine :: fields.map fieldLine ++ [[]]).flatMap (· ++ ['\r', '\n'])

/-- Lines that are printed are read back. -/
theorem lines_printed {printed : List (List Char)} (h : ∀ line ∈ printed, '\n' ∉ line) :
    lines (printed.flatMap (· ++ ['\r', '\n'])) = printed := by
  have hsplit : (printed.flatMap (· ++ ['\r', '\n'])).splitOn '\n' =
      printed.map (· ++ ['\r']) ++ [[]] := by
    induction printed with
    | nil => rfl
    | cons line printed ih =>
      obtain ⟨hline, hrest⟩ := List.forall_mem_cons.mp h
      have hclean : ∀ c ∈ line ++ ['\r'], (c == '\n') = false := by
        intro c hc
        rw [beq_eq_false_iff_ne]
        rintro rfl
        simp [hline] at hc
      have hfront : line ++ ['\r', '\n'] = line ++ ['\r'] ++ ['\n'] := by simp
      rw [List.flatMap_cons, hfront, List.append_assoc, List.singleton_append,
        List.splitOn_eq_splitOnP, List.splitOnP_append_cons_of_forall_mem hclean _ rfl,
        ← List.splitOn_eq_splitOnP, ih hrest]
      rfl
  have hdrop : (printed.map (· ++ ['\r'])).map dropCr = printed := by
    rw [List.map_map]
    apply List.map_id''
    intro line
    simp [dropCr]
  simp only [lines, hsplit, List.dropLast_concat, List.getLast?_concat, hdrop]
  simp

theorem headerOf_fieldLine {field : List Char × List Char} (hname : ':' ∉ field.1) :
    headerOf (fieldLine field) = some (normal field) := by
  have hclean : ∀ c ∈ field.1, decide (c ≠ ':') = true := by
    intro c hc
    apply decide_eq_true
    rintro rfl
    exact hname hc
  have htrim : trim (' ' :: field.2) = trim field.2 := by
    rw [trim, trim, List.dropWhile_cons_of_pos rfl]
  rw [headerOf, fieldLine, splitOnce, if_pos (by simp), List.takeWhile_append_of_pos hclean,
    List.dropWhile_append_of_pos hclean]
  simp [normal, htrim]

/-- **A head that is printed from its lines is read back**, the names of its fields in small letters
and a later field over an earlier one of its name. -/
theorem parseHead_encode (requestLine : List Char) (fields : List (List Char × List Char))
    (hline : '\n' ∉ requestLine)
    (hfields : ∀ f ∈ fields, '\n' ∉ f.1 ∧ ':' ∉ f.1 ∧ '\n' ∉ f.2) :
    parseHead ((printHead requestLine fields).flatMap String.utf8EncodeChar) =
      ⟨requestLine, Table.collect (fields.map normal)⟩ := by
  have hlines : lines (printHead requestLine fields) =
      requestLine :: fields.map fieldLine ++ [[]] := by
    apply lines_printed
    intro line hmem
    simp only [List.cons_append, List.mem_cons, List.mem_append, List.mem_map,
      List.not_mem_nil, or_false] at hmem
    rcases hmem with rfl | ⟨f, hf, rfl⟩ | rfl
    · exact hline
    · simp [fieldLine, (hfields f hf).1, (hfields f hf).2.2]
    · simp
  have hheaders : (fields.map fieldLine).filterMap headerOf = fields.map normal := by
    rw [List.filterMap_map, ← List.filterMap_eq_map]
    apply List.filterMap_congr
    intro f hf
    exact headerOf_fieldLine (hfields f hf).2.1
  have hempty : headerOf [] = none := rfl
  simp only [parseHead, Utf8.lossy_encode, hlines, List.cons_append, List.head?_cons,
    Option.getD_some, List.tail_cons, List.filterMap_append, hheaders]
  simp [hempty]

end RfxVoiced.Control
