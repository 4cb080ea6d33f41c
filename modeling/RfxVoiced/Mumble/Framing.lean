import RfxVoiced.Lib.BigEndian
import Mathlib.Data.List.Basic
import Mathlib.Tactic.Common

/-!
# Framing

A control message is framed by six bytes: its kind and its length, the most significant byte first.
The bytes of a connection arrive in pieces of any size. A header is read a piece at a time, because
the read may be dropped when something else happens first; what has arrived of it is kept. A body is
read whole, and nothing interrupts that.

What the reader makes of a connection is compared with `parse`, which is given the whole stream at
once and knows nothing of pieces or of dropped reads.

## Main definitions

* `frame` — a message as it is sent
* `Arrivals` — what a connection delivers, read by read
* `Header`, `readLoop` — the reader
* `parse` — the messages of a whole stream

## Main results

* `readLoop_eq_parse` — the reader makes of any pieces what `parse` makes of their concatenation
* `framing_survives_fragmentation` — messages come back as they were sent, and an oversized header
  is refused before its body
-/

namespace RfxVoiced.Mumble

/-- The greatest length that a header may announce: 8 MiB. -/
def maxFrame : ℕ := 8 * 1024 * 1024

/-- A control message: its kind, and its body. -/
abbrev Message := UInt16 × List UInt8

/-- The six bytes ahead of a body. -/
def headerBytes (kind : UInt16) (length : UInt32) : List UInt8 :=
  BigEndian.digits 2 kind.toNat ++ BigEndian.digits 4 length.toNat

def frame (kind : UInt16) (body : List UInt8) : List UInt8 :=
  headerBytes kind (UInt32.ofNat body.length) ++ body

/-- Messages as they are sent, one after the other. -/
def framed (messages : List Message) : List UInt8 := messages.flatMap fun m => frame m.1 m.2

/-- Why a connection is given up. -/
inductive Stop
  | closed
  | shortRead
  | oversized (kind : UInt16) (length : ℕ)
  deriving DecidableEq, Repr

def Stop.text : Stop → String
  | .closed => "connection closed by server"
  | .shortRead => "short read"
  | .oversized kind length => s!"oversized mumble frame: kind {kind}, {length} bytes"

/-! ### Reads -/

/-- What a connection delivers, in order: pieces of the stream, and the ticks that come while a read
waits for the next piece. -/
abbrev Arrivals := List (Option (List UInt8))

/-- The stream, without its cuts. -/
def Arrivals.bytes (rd : Arrivals) : List UInt8 := rd.flatMap fun a => a.getD []

/-- One read of `n` bytes at most. What a piece has beyond that is left for the next read. A read at
the end of the stream finds nothing. -/
def read (n : ℕ) : Arrivals → List UInt8 × Arrivals
  | [] => ([], [])
  | none :: rd => read n rd
  | some piece :: rd =>
    (piece.take n, if piece.length ≤ n then rd else some (piece.drop n) :: rd)

/-- `read_exact`: reads until it has all `n` bytes, whatever comes in between. -/
def readExact : ℕ → Arrivals → Option (List UInt8 × Arrivals)
  | 0, rd => some ([], rd)
  | _ + 1, [] => none
  | n + 1, none :: rd => readExact (n + 1) rd
  | n + 1, some piece :: rd =>
    if piece.isEmpty then none
    else if n + 1 < piece.length then
      some (piece.take (n + 1), some (piece.drop (n + 1)) :: rd)
    else (readExact (n + 1 - piece.length) rd).map fun x => (piece ++ x.1, x.2)

/-! ### The header -/

/-- What has arrived of a header. -/
structure Header where
  /-- The bytes in hand: the front of the source's buffer, up to its fill count. -/
  buf : List UInt8
  short : buf.length < 6

instance : Inhabited Header := ⟨⟨[], by decide⟩⟩

/-- The kind and the length that six bytes announce. -/
def announced (buf : List UInt8) : UInt16 × ℕ :=
  (UInt16.ofNat (BigEndian.value (buf.take 2)), BigEndian.value (buf.drop 2))

/-- `Header::read_from`: one read. Nothing is announced while the header is short. -/
def Header.readFrom (h : Header) (rd : Arrivals) :
    Except Stop (Option (UInt16 × ℕ)) × Header × Arrivals :=
  let (piece, rd) := read (6 - h.buf.length) rd
  if piece.isEmpty then (.error .closed, h, rd)
  else
    let buf := h.buf ++ piece
    if hshort : buf.length < 6 then (.ok none, ⟨buf, hshort⟩, rd)
    else
      let (kind, length) := announced buf
      -- Refused before anything is allocated for the body.
      if maxFrame < length then (.error (.oversized kind length), default, rd)
      else (.ok (some (kind, length)), default, rd)

/-! ### What a read takes -/

/-- No piece is empty: an empty read is the end of a stream. -/
def Arrivals.Live (rd : Arrivals) : Prop := ∀ piece, some piece ∈ rd → piece ≠ []

theorem Arrivals.Live.tail {a : Option (List UInt8)} {rd : Arrivals} (h : Arrivals.Live (a :: rd)) :
    Arrivals.Live rd := fun piece hmem => h piece (List.mem_cons_of_mem a hmem)

/-- What is left of a piece that is longer than what was taken is no empty piece. -/
theorem Arrivals.Live.drop {piece : List UInt8} {rd : Arrivals} {n : ℕ}
    (h : Arrivals.Live (some piece :: rd)) (hlt : n < piece.length) :
    Arrivals.Live (some (piece.drop n) :: rd) := by
  intro piece' hmem
  rcases List.mem_cons.mp hmem with heq | hmem
  · rw [Option.some.inj heq, Ne, List.drop_eq_nil_iff]
    exact Nat.not_le.mpr hlt
  · exact h.tail piece' hmem

@[simp] theorem Arrivals.bytes_none (rd : Arrivals) : Arrivals.bytes (none :: rd) = rd.bytes := rfl

@[simp] theorem Arrivals.bytes_some (piece : List UInt8) (rd : Arrivals) :
    Arrivals.bytes (some piece :: rd) = piece ++ rd.bytes := rfl

/-- A read takes bytes off the front of the stream, no more than it asked for. -/
theorem read_spec (n : ℕ) (rd : Arrivals) :
    (read n rd).1 ++ (read n rd).2.bytes = rd.bytes ∧ (read n rd).1.length ≤ n ∧
      (read n rd).2.length ≤ rd.length := by
  induction rd with
  | nil => exact ⟨rfl, Nat.zero_le n, Nat.le_refl 0⟩
  | cons a rd ih =>
    cases a with
    | none => exact ⟨ih.1, ih.2.1, ih.2.2.trans (Nat.le_succ _)⟩
    | some piece =>
      rw [read]
      refine ⟨?_, List.length_take_le n piece, ?_⟩
      · split_ifs with h
        · rw [List.take_of_length_le h, Arrivals.bytes_some]
        · rw [Arrivals.bytes_some, ← List.append_assoc, List.take_append_drop, Arrivals.bytes_some]
      · split_ifs
        · exact Nat.le_succ _
        · exact Nat.le_refl _

/-- While the stream goes on, a read finds something, and leaves no empty piece. -/
theorem read_live {n : ℕ} (hn : 0 < n) {rd : Arrivals} (h : rd.Live) :
    (read n rd).2.Live ∧ ((read n rd).1 = [] → rd.bytes = []) := by
  induction rd with
  | nil => exact ⟨h, fun _ => rfl⟩
  | cons a rd ih =>
    cases a with
    | none => exact ih h.tail
    | some piece =>
      have hpiece : piece ≠ [] := h piece List.mem_cons_self
      rw [read]
      refine ⟨?_, fun hnil => ?_⟩
      · split_ifs with hlen
        · exact h.tail
        · exact h.drop (Nat.not_le.mp hlen)
      · rcases List.take_eq_nil_iff.mp hnil with hzero | hnil
        · omega
        · exact absurd hnil hpiece

/-- An exact read takes as many bytes off the front of the stream as it asked for. -/
theorem readExact_spec {n : ℕ} {rd rd' : Arrivals} {body : List UInt8}
    (h : readExact n rd = some (body, rd')) :
    body.length = n ∧ body ++ rd'.bytes = rd.bytes ∧ rd'.length ≤ rd.length := by
  induction rd generalizing n body with
  | nil =>
    cases n with
    | zero =>
      obtain ⟨rfl, rfl⟩ := Prod.mk.inj (Option.some.inj h)
      exact ⟨rfl, rfl, Nat.le_refl _⟩
    | succ n => exact absurd h (by simp [readExact])
  | cons a rd ih =>
    cases n with
    | zero =>
      obtain ⟨rfl, rfl⟩ := Prod.mk.inj (Option.some.inj h)
      exact ⟨rfl, rfl, Nat.le_refl _⟩
    | succ n =>
      -- Nothing drops a read of a body, so it goes on after a tick.
      cases a with
      | none =>
        obtain ⟨hlen, hbytes, hle⟩ := ih h
        exact ⟨hlen, hbytes, hle.trans (Nat.le_succ _)⟩
      | some piece =>
        rw [readExact] at h
        split_ifs at h with hempty hmore
        · obtain ⟨rfl, rfl⟩ := Prod.mk.inj (Option.some.inj h)
          refine ⟨by rw [List.length_take]; omega, ?_, Nat.le_refl _⟩
          rw [Arrivals.bytes_some, ← List.append_assoc, List.take_append_drop, Arrivals.bytes_some]
        · obtain ⟨x, hx, heq⟩ := Option.map_eq_some_iff.mp h
          obtain ⟨rfl, rfl⟩ := Prod.mk.inj heq
          obtain ⟨hlen, hbytes, hle⟩ := ih hx
          refine ⟨by rw [List.length_append, hlen]; omega, ?_, hle.trans (Nat.le_succ _)⟩
          rw [List.append_assoc, hbytes, Arrivals.bytes_some]

/-- While the stream goes on an exact read leaves no empty piece, and it fails only when the stream
is too short. -/
theorem readExact_live {n : ℕ} {rd : Arrivals} (h : rd.Live) :
    (∀ body rd', readExact n rd = some (body, rd') → rd'.Live) ∧
      (readExact n rd = none → rd.bytes.length < n) := by
  induction rd generalizing n with
  | nil =>
    cases n with
    | zero =>
      refine ⟨fun body rd' hsome => ?_, fun hnone => absurd hnone (by simp [readExact])⟩
      rw [← (Prod.mk.inj (Option.some.inj hsome)).2]
      exact h
    | succ n =>
      exact ⟨fun body rd' hsome => absurd hsome (by simp [readExact]), fun _ => Nat.succ_pos n⟩
  | cons a rd ih =>
    cases n with
    | zero =>
      refine ⟨fun body rd' hsome => ?_, fun hnone => absurd hnone (by simp [readExact])⟩
      rw [← (Prod.mk.inj (Option.some.inj hsome)).2]
      exact h
    | succ n =>
      cases a with
      | none => exact ih h.tail
      | some piece =>
        have hpiece : piece ≠ [] := h piece List.mem_cons_self
        rw [readExact, if_neg (by simpa using hpiece), Arrivals.bytes_some, List.length_append]
        split_ifs with hmore
        · refine ⟨fun body rd' hsome => ?_, fun hnone => absurd hnone (by simp)⟩
          rw [← (Prod.mk.inj (Option.some.inj hsome)).2]
          exact h.drop (by omega)
        · obtain ⟨hlive, hshort⟩ := ih (n := n + 1 - piece.length) h.tail
          refine ⟨fun body rd' hsome => ?_, fun hnone => ?_⟩
          · obtain ⟨x, hx, heq⟩ := Option.map_eq_some_iff.mp hsome
            rw [← (Prod.mk.inj heq).2]
            exact hlive x.1 x.2 hx
          · have hlt := hshort (Option.map_eq_none_iff.mp hnone)
            omega

/-! ### The loop -/

/-- The bytes and pieces that are still to arrive. -/
def Arrivals.size (rd : Arrivals) : ℕ := rd.bytes.length + rd.length

theorem Header.size_readFrom {h h' : Header} {rd rd' : Arrivals} {found : Option (UInt16 × ℕ)}
    (hread : h.readFrom rd = (.ok found, h', rd')) : rd'.size < rd.size := by
  obtain ⟨hbytes, -, hle⟩ := read_spec (6 - h.buf.length) rd
  have hlen := congrArg List.length hbytes
  rw [List.length_append] at hlen
  unfold Header.readFrom at hread
  simp only at hread
  have hpiece : (read (6 - h.buf.length) rd).1 ≠ [] ∧ rd' = (read (6 - h.buf.length) rd).2 := by
    split_ifs at hread with hempty hshort hover
    · exact absurd (Prod.mk.inj hread).1 (by simp)
    · exact ⟨by simpa using hempty, (Prod.mk.inj (Prod.mk.inj hread).2).2.symm⟩
    · exact absurd (Prod.mk.inj hread).1 (by simp)
    · exact ⟨by simpa using hempty, (Prod.mk.inj (Prod.mk.inj hread).2).2.symm⟩
  obtain ⟨hne, rfl⟩ := hpiece
  have hpos := List.length_pos_iff.mpr hne
  unfold Arrivals.size
  omega

/-- The read loop: the messages that were read whole, why the connection was given up, and what was
not read of it. -/
def readLoop (h : Header) (rd : Arrivals) : List Message × Stop × Arrivals :=
  match rd with
  -- A tick comes first, and the header read is dropped. It had taken nothing.
  | none :: rd => readLoop h rd
  | rd =>
    match _hread : h.readFrom rd with
    | (.error stop, _, left) => ([], stop, left)
    | (.ok none, h', rd') => readLoop h' rd'
    | (.ok (some (kind, length)), h', rd') =>
      match _hbody : readExact length rd' with
      | none => ([], .shortRead, [])
      | some (body, rd'') =>
        let rest := readLoop h' rd''
        ((kind, body) :: rest.1, rest.2)
termination_by rd.size
decreasing_by
  · simp [Arrivals.size]
  · exact Header.size_readFrom _hread
  · obtain ⟨-, hbytes, hle⟩ := readExact_spec _hbody
    have hlen := congrArg List.length hbytes
    rw [List.length_append] at hlen
    have hlt := Header.size_readFrom _hread
    unfold Arrivals.size at hlt ⊢
    omega

/-- The messages of a whole stream, why it ends there, and what is left of it. -/
def parse (bytes : List UInt8) : List Message × Stop × List UInt8 :=
  if bytes.length < 6 then ([], .closed, [])
  else
    let (kind, length) := announced (bytes.take 6)
    let rest := bytes.drop 6
    if maxFrame < length then ([], .oversized kind length, rest)
    else if rest.length < length then ([], .shortRead, [])
    else
      let more := parse (rest.drop length)
      ((kind, rest.take length) :: more.1, more.2)
termination_by bytes.length
decreasing_by
  simp only [List.length_drop]
  omega

/-! ### Pieces do not matter -/

/-- One read of a header, against the stream: it finds the end, it brings the header further, or it
completes it with the sixth byte. -/
theorem Header.readFrom_cases (h : Header) {rd : Arrivals} (hlive : rd.Live) :
    (∃ left, h.readFrom rd = (.error .closed, h, left) ∧ rd.bytes = [] ∧ left.bytes = []) ∨
    (∃ h' rd', h.readFrom rd = (.ok none, h', rd') ∧ rd'.Live ∧
      h'.buf ++ rd'.bytes = h.buf ++ rd.bytes) ∨
    ∃ rd', rd'.Live ∧ 6 ≤ (h.buf ++ rd.bytes).length ∧
      rd'.bytes = (h.buf ++ rd.bytes).drop 6 ∧
      h.readFrom rd =
        if maxFrame < (announced ((h.buf ++ rd.bytes).take 6)).2 then
          (.error (.oversized (announced ((h.buf ++ rd.bytes).take 6)).1
            (announced ((h.buf ++ rd.bytes).take 6)).2), default, rd')
        else (.ok (some (announced ((h.buf ++ rd.bytes).take 6))), default, rd') := by
  have hroom : 0 < 6 - h.buf.length := Nat.sub_pos_of_lt h.short
  obtain ⟨hbytes, hlen, -⟩ := read_spec (6 - h.buf.length) rd
  obtain ⟨hlive', hend⟩ := read_live hroom hlive
  unfold Header.readFrom
  generalize read (6 - h.buf.length) rd = x at hbytes hlen hlive' hend
  obtain ⟨piece, rd'⟩ := x
  simp only at hbytes hlen hlive' hend ⊢
  by_cases hempty : piece = []
  · -- Nothing was read, so that the stream has ended.
    subst hempty
    rw [List.nil_append] at hbytes
    exact Or.inl ⟨rd', rfl, hend rfl, hbytes.trans (hend rfl)⟩
  · rw [if_neg (by simpa using hempty)]
    have hall : (h.buf ++ piece) ++ rd'.bytes = h.buf ++ rd.bytes := by
      rw [List.append_assoc, hbytes]
    by_cases hshort : (h.buf ++ piece).length < 6
    · -- What there is of the header is kept for the next read.
      rw [dif_pos hshort]
      exact Or.inr (Or.inl ⟨_, rd', rfl, hlive', hall⟩)
    · -- The read asked for what was missing, so there are six bytes now and no more.
      have hsix : (h.buf ++ piece).length = 6 := by
        rw [List.length_append] at hshort ⊢
        omega
      rw [dif_neg hshort, ← hall, ← hsix, List.take_left, List.drop_left]
      refine Or.inr (Or.inr ⟨rd', hlive', ?_, rfl, rfl⟩)
      exact (List.prefix_append (h.buf ++ piece) rd'.bytes).length_le

/-! What the loop does after one read, as equations. -/

section Turn

variable {h h' : Header} {rd rd' rd'' left : Arrivals} {kind : UInt16} {length : ℕ}

theorem readLoop_of_error {stop : Stop} (htick : ∀ rd', rd = none :: rd' → False)
    (hread : h.readFrom rd = (.error stop, h', left)) : readLoop h rd = ([], stop, left) := by
  rw [readLoop.eq_2 h rd htick]
  split
  next heq =>
    rw [hread] at heq
    obtain ⟨hstop, -, hleft⟩ := Prod.mk.inj heq |>.imp Except.error.inj Prod.mk.inj
    rw [hstop, hleft]
  next heq => exact absurd (hread.symm.trans heq) (by simp)
  next heq => exact absurd (hread.symm.trans heq) (by simp)

theorem readLoop_of_short (htick : ∀ rd', rd = none :: rd' → False)
    (hread : h.readFrom rd = (.ok none, h', rd')) : readLoop h rd = readLoop h' rd' := by
  rw [readLoop.eq_2 h rd htick]
  split
  next heq => exact absurd (hread.symm.trans heq) (by simp)
  next heq =>
    rw [hread] at heq
    obtain ⟨-, hh, hrd⟩ := Prod.mk.inj heq |>.imp id Prod.mk.inj
    rw [hh, hrd]
  next heq => exact absurd (hread.symm.trans heq) (by simp)

theorem readLoop_of_header (htick : ∀ rd', rd = none :: rd' → False)
    (hread : h.readFrom rd = (.ok (some (kind, length)), h', rd')) :
    readLoop h rd =
      match readExact length rd' with
      | none => ([], .shortRead, [])
      | some (body, rd'') =>
        ((kind, body) :: (readLoop h' rd'').1, (readLoop h' rd'').2) := by
  rw [readLoop.eq_2 h rd htick]
  split
  next heq => exact absurd (hread.symm.trans heq) (by simp)
  next heq => exact absurd (hread.symm.trans heq) (by simp)
  next heq =>
    rw [hread] at heq
    obtain ⟨hfound, hh, hrd⟩ := Prod.mk.inj heq |>.imp id Prod.mk.inj
    obtain ⟨hkind, hlength⟩ := Prod.mk.inj (Option.some.inj (Except.ok.inj hfound))
    subst hkind hlength hh hrd
    split
    next hbody => rw [hbody]
    next hbody => rw [hbody]

end Turn

/-- A header that is accepted is the next six bytes of the stream, and announces no more than is
allowed. -/
theorem Header.readFrom_ok {h h' : Header} {rd rd' : Arrivals} {kind : UInt16} {length : ℕ}
    (hlive : rd.Live) (hread : h.readFrom rd = (.ok (some (kind, length)), h', rd')) :
    h' = default ∧ rd'.Live ∧ 6 ≤ (h.buf ++ rd.bytes).length ∧
      rd'.bytes = (h.buf ++ rd.bytes).drop 6 ∧
      announced ((h.buf ++ rd.bytes).take 6) = (kind, length) ∧ ¬ maxFrame < length := by
  rcases h.readFrom_cases hlive with ⟨left, heq, -⟩ | ⟨h'', rd'', heq, -⟩ |
    ⟨rd'', hlive', hlen, hbytes, heq⟩
  · exact absurd (hread.symm.trans heq) (by simp)
  · exact absurd (hread.symm.trans heq) (by simp)
  · rw [hread] at heq
    split_ifs at heq with hover
    · exact absurd (Prod.mk.inj heq).1 (by simp)
    · obtain ⟨hfound, hrest⟩ := Prod.mk.inj heq
      obtain ⟨rfl, rfl⟩ := Prod.mk.inj hrest
      have hann := (Option.some.inj (Except.ok.inj hfound)).symm
      rw [hann] at hover
      exact ⟨rfl, hlive', hlen, hbytes, hann, hover⟩

theorem parse_of_length_lt {bytes : List UInt8} (h : bytes.length < 6) :
    parse bytes = ([], .closed, []) := by
  rw [parse, if_pos h]

theorem parse_of_le_length {bytes : List UInt8} {kind : UInt16} {length : ℕ}
    (h : 6 ≤ bytes.length) (hann : announced (bytes.take 6) = (kind, length)) :
    parse bytes =
      if maxFrame < length then ([], .oversized kind length, bytes.drop 6)
      else if (bytes.drop 6).length < length then ([], .shortRead, [])
      else
        ((kind, (bytes.drop 6).take length) :: (parse ((bytes.drop 6).drop length)).1,
          (parse ((bytes.drop 6).drop length)).2) := by
  rw [parse, if_neg (Nat.not_lt.mpr h), hann]

/-- The reader makes of any pieces, with any number of dropped reads between them, what `parse`
makes of the stream. -/
theorem readLoop_eq_parse (h : Header) {rd : Arrivals} (hlive : rd.Live) :
    ((readLoop h rd).1, (readLoop h rd).2.1, (readLoop h rd).2.2.bytes) =
      parse (h.buf ++ rd.bytes) := by
  -- By the recursion of the loop. What has been read of a header stands ahead of the stream, so
  -- that the bytes to be parsed stay the same when a read ends within it.
  induction h, rd using readLoop.induct with
  | case1 h rd ih =>
    rw [readLoop]
    exact ih hlive.tail
  | case2 h rd htick stop h' left hread =>
    rw [readLoop_of_error htick hread]
    rcases h.readFrom_cases hlive with ⟨left', heq, hend, hleft⟩ | ⟨h'', rd'', heq, -⟩ |
      ⟨rd'', -, hlen, hbytes, heq⟩
    · -- The stream has ended, between two headers or within one.
      obtain ⟨hstop, hrest⟩ := Prod.mk.inj (hread.symm.trans heq)
      obtain ⟨-, rfl⟩ := Prod.mk.inj hrest
      rw [Except.error.inj hstop, hend, List.append_nil, parse_of_length_lt h.short, hleft]
    · exact absurd (hread.symm.trans heq) (by simp)
    · rw [hread] at heq
      split_ifs at heq with hover
      · obtain ⟨hstop, hrest⟩ := Prod.mk.inj heq
        obtain ⟨-, rfl⟩ := Prod.mk.inj hrest
        rw [parse_of_le_length hlen Prod.mk.eta.symm, if_pos hover, Except.error.inj hstop, hbytes]
      · exact absurd (Prod.mk.inj heq).1 (by simp)
  | case3 h rd htick h' rd' hread ih =>
    rw [readLoop_of_short htick hread]
    rcases h.readFrom_cases hlive with ⟨left', heq, -⟩ | ⟨h'', rd'', heq, hlive', hbytes⟩ |
      ⟨rd'', -, -, -, heq⟩
    · exact absurd (hread.symm.trans heq) (by simp)
    · obtain ⟨-, hrest⟩ := Prod.mk.inj (hread.symm.trans heq)
      obtain ⟨rfl, rfl⟩ := Prod.mk.inj hrest
      rw [ih hlive', hbytes]
    · rw [hread] at heq
      split_ifs at heq
      · exact absurd (Prod.mk.inj heq).1 (by simp)
      · exact absurd (Prod.mk.inj heq).1 (by simp)
  | case4 h rd htick kind length h' rd' hread hbody =>
    -- The stream ends within a body.
    obtain ⟨-, hlive', hlen, hbytes, hann, hover⟩ := Header.readFrom_ok hlive hread
    have hshort := (readExact_live hlive').2 hbody
    rw [hbytes] at hshort
    rw [readLoop_of_header htick hread, hbody, parse_of_le_length hlen hann, if_neg hover,
      if_pos hshort]
    rfl
  | case5 h rd htick kind length h' rd' hread body rd'' hbody ih =>
    -- A whole message has been read, and the next one begins with an empty header.
    obtain ⟨rfl, hlive', hlen, hbytes, hann, hover⟩ := Header.readFrom_ok hlive hread
    obtain ⟨hbody_len, hsplit, -⟩ := readExact_spec hbody
    have hmore := ih ((readExact_live hlive').1 body rd'' hbody)
    rw [hbytes] at hsplit
    have hlong : ¬ ((h.buf ++ rd.bytes).drop 6).length < length := by
      rw [← hsplit, List.length_append, hbody_len]
      omega
    rw [readLoop_of_header htick hread, hbody, parse_of_le_length hlen hann, if_neg hover,
      if_neg hlong, ← hsplit, ← hbody_len, List.take_left, List.drop_left]
    have hnext : (default : Header).buf ++ rd''.bytes = rd''.bytes := rfl
    rw [hnext] at hmore
    rw [← hmore]

/-! ### Messages -/

theorem announced_headerBytes (kind : UInt16) (length : UInt32) :
    announced (headerBytes kind length) = (kind, length.toNat) := by
  have htake : (headerBytes kind length).take 2 = BigEndian.digits 2 kind.toNat := by
    rw [headerBytes, List.take_left' (BigEndian.length_digits 2 _)]
  have hdrop : (headerBytes kind length).drop 2 = BigEndian.digits 4 length.toNat := by
    rw [headerBytes, List.drop_left' (BigEndian.length_digits 2 _)]
  rw [announced, htake, hdrop, BigEndian.value_digits_of_lt kind.toNat_lt,
    BigEndian.value_digits_of_lt length.toNat_lt, UInt16.ofNat_toNat]

@[simp] theorem length_headerBytes (kind : UInt16) (length : UInt32) :
    (headerBytes kind length).length = 6 := by
  rw [headerBytes, List.length_append, BigEndian.length_digits, BigEndian.length_digits]

/-- A stream that starts with a header, whatever follows it. -/
theorem parse_headerBytes (kind : UInt16) (length : UInt32) (rest : List UInt8) :
    parse (headerBytes kind length ++ rest) =
      if maxFrame < length.toNat then ([], .oversized kind length.toNat, rest)
      else if rest.length < length.toNat then ([], .shortRead, [])
      else
        ((kind, rest.take length.toNat) :: (parse (rest.drop length.toNat)).1,
          (parse (rest.drop length.toNat)).2) := by
  have hsix := length_headerBytes kind length
  have hlen : 6 ≤ (headerBytes kind length ++ rest).length := by
    rw [List.length_append, hsix]
    omega
  have htake : (headerBytes kind length ++ rest).take 6 = headerBytes kind length :=
    List.take_left' hsix
  have hann := announced_headerBytes kind length
  rw [← htake] at hann
  rw [parse_of_le_length hlen hann, List.drop_left' hsix]

/-- A message that is no longer than is allowed is the first one of its stream. -/
theorem parse_frame (kind : UInt16) {body : List UInt8} (hbody : body.length ≤ maxFrame)
    (rest : List UInt8) :
    parse (frame kind body ++ rest) = ((kind, body) :: (parse rest).1, (parse rest).2) := by
  have hlen : (UInt32.ofNat body.length).toNat = body.length :=
    UInt32.toNat_ofNat_of_lt' (lt_of_le_of_lt hbody (by decide))
  rw [frame, List.append_assoc, parse_headerBytes, hlen, if_neg (Nat.not_lt.mpr hbody), if_neg,
    List.take_left, List.drop_left]
  rw [List.length_append]
  omega

/-- The messages of a stream that starts with these, whatever follows them. -/
theorem parse_frames {messages : List Message}
    (h : ∀ m ∈ messages, m.2.length ≤ maxFrame) (rest : List UInt8) :
    parse (framed messages ++ rest) =
      (messages ++ (parse rest).1, (parse rest).2) := by
  induction messages with
  | nil => rfl
  | cons m messages ih =>
    obtain ⟨hm, hrest⟩ := List.forall_mem_cons.mp h
    have hcons : framed (m :: messages) = frame m.1 m.2 ++ framed messages := List.flatMap_cons
    rw [hcons, List.append_assoc, parse_frame m.1 hm, ih hrest]
    rfl

/-- No message is longer than is allowed, whatever the stream. -/
theorem length_le_of_mem_parse (bytes : List UInt8) :
    ∀ m ∈ (parse bytes).1, m.2.length ≤ maxFrame := by
  induction hn : bytes.length using Nat.strong_induction_on generalizing bytes with
  | _ n ih =>
    intro m hm
    by_cases hlen : bytes.length < 6
    · rw [parse_of_length_lt hlen] at hm
      exact absurd hm List.not_mem_nil
    · rw [parse_of_le_length (Nat.le_of_not_lt hlen) Prod.mk.eta.symm] at hm
      split_ifs at hm with hover hshort
      · exact absurd hm List.not_mem_nil
      · exact absurd hm List.not_mem_nil
      · rcases List.mem_cons.mp hm with rfl | hm
        · exact (List.length_take_le _ _).trans (Nat.le_of_not_lt hover)
        · refine ih _ ?_ _ rfl m hm
          simp only [List.length_drop]
          omega

/-- **Framing survives any fragmentation.** However a stream of messages is cut into pieces, and
however often a header read is dropped in between, the loop reads exactly those messages, in order.
And on whatever stream, a header that announces more than is allowed is refused while its body is
still unread, so that no body of that length is ever read. -/
theorem framing_survives_fragmentation :
    (∀ (messages : List Message) (rd : Arrivals), (∀ m ∈ messages, m.2.length ≤ maxFrame) →
      rd.Live → rd.bytes = framed messages →
      ∃ left, readLoop default rd = (messages, .closed, left)) ∧
    (∀ (messages : List Message) (kind : UInt16) (length : UInt32) (rest : List UInt8)
        (rd : Arrivals), (∀ m ∈ messages, m.2.length ≤ maxFrame) → maxFrame < length.toNat →
      rd.Live → rd.bytes = framed messages ++ (headerBytes kind length ++ rest) →
      ∃ left, readLoop default rd = (messages, .oversized kind length.toNat, left) ∧
        left.bytes = rest) ∧
    ∀ rd : Arrivals, rd.Live → ∀ m ∈ (readLoop default rd).1, m.2.length ≤ maxFrame := by
  have hparse : ∀ rd : Arrivals, rd.Live →
      ((readLoop default rd).1, (readLoop default rd).2.1, (readLoop default rd).2.2.bytes) =
        parse rd.bytes := fun rd hlive => readLoop_eq_parse default hlive
  refine ⟨fun messages rd hle hlive hbytes => ?_, fun messages kind length rest rd hle hover hlive
    hbytes => ?_, fun rd hlive m hm => ?_⟩
  · have hend := parse_frames hle []
    rw [List.append_nil, ← hbytes, ← hparse rd hlive, parse_of_length_lt (by decide),
      List.append_nil] at hend
    obtain ⟨hmessages, hrest⟩ := Prod.mk.inj hend
    exact ⟨_, Prod.ext hmessages (Prod.ext (Prod.mk.inj hrest).1 rfl)⟩
  · have hrefused := parse_frames hle (headerBytes kind length ++ rest)
    rw [← hbytes, ← hparse rd hlive, parse_headerBytes, if_pos hover, List.append_nil] at hrefused
    obtain ⟨hmessages, hrest⟩ := Prod.mk.inj hrefused
    obtain ⟨hstop, hleft⟩ := Prod.mk.inj hrest
    exact ⟨_, Prod.ext hmessages (Prod.ext hstop rfl), hleft⟩
  · rw [congrArg Prod.fst (hparse rd hlive)] at hm
    exact length_le_of_mem_parse rd.bytes m hm

end RfxVoiced.Mumble
