import Didem.Stream.RW

/-!
# What arrives of a sequence of messages

Two sides. **Where no read is short everything arrives** (`arrives_of_unsplit`). **Where reads may
be short almost nothing does**: with one byte to a chunk the length is read off the first byte of
the four, the data is the second, and from then on the reader is inside what it takes for lengths.
Only sequences survive that in which all these bytes are zero (`silent_of_singles`), and those
survive any chunking (`arrives_of_silent`).
-/

set_option autoImplicit false

namespace Didem.Stream

open Lib Storage

/-! ## Lengths -/

theorem uint32_putUint32 {n : Nat} (hn : n < 2 ^ 32) (rest : Bytes) :
    uint32 (putUint32 n ++ rest) = n := by
  simp [uint32, putUint32, List.getD]
  omega

theorem wire_cons (m : Bytes) (ms : List Bytes) :
    wire (m :: ms) = putUint32 m.length ++ (m ++ wire ms) := by
  simp [wire, RW.write]

/-- Memory that is all zeros. -/
def Blank (b : Bytes) : Prop := ∀ x ∈ b, x = 0

theorem Blank.append {a b : Bytes} : Blank (a ++ b) ↔ Blank a ∧ Blank b :=
  List.forall_mem_append

theorem Blank.replicate (n : Nat) : Blank (List.replicate n 0) := fun _ => List.eq_of_mem_replicate

theorem Blank.grow (alloc : Alloc) (n : Nat) {buf : Bytes} (h : Blank buf) :
    Blank (grow alloc n buf) := by
  unfold Stream.grow
  split
  · exact h
  · exact .replicate _

theorem Blank.drop {b : Bytes} (h : Blank b) (n : Nat) : Blank (b.drop n) := fun x hx =>
  h x (List.mem_of_mem_drop hx)

/-- New memory is zeros. -/
theorem blank_grow_nil (alloc : Alloc) (n : Nat) : Blank (grow alloc n []) :=
  .grow alloc n (List.forall_mem_nil _)

theorem Blank.overwrite {d buf : Bytes} (hd : Blank d) (h : Blank buf) : Blank (overwrite d buf) :=
  Blank.append.mpr ⟨hd, h.drop _⟩

theorem Blank.overwrite_first (alloc : Alloc) (b : UInt8) {buf : Bytes} (h : Blank buf) :
    Blank (Stream.overwrite [0] (Stream.grow alloc 1 (b :: buf))) := by
  have hkeep : 1 ≤ (b :: buf).length := Nat.le_add_left _ _
  rw [Stream.grow, if_pos hkeep]
  exact List.forall_mem_cons.mpr ⟨rfl, h⟩

theorem Blank.getD {b : Bytes} (h : Blank b) (i : Nat) : b.getD i 0 = 0 := by
  rw [List.getD_eq_getElem?_getD]
  cases hi : b[i]? with
  | none => rfl
  | some x => exact h x (List.mem_of_getElem? hi)

theorem Blank.uint32 {b : Bytes} (h : Blank b) : uint32 b = 0 := by
  simp only [Stream.uint32, h.getD]
  rfl

/-- A length of which one byte was read, or more of a small one. -/
theorem Blank.uint32_cons {b : Bytes} (h : Blank b) (l : UInt8) :
    Stream.uint32 (l :: b) = l.toNat := by
  simp only [Stream.uint32, List.getD_cons_zero, List.getD_cons_succ, h.getD]
  rfl

/-! ## One read -/

namespace RW

theorem fill_of_read (alloc : Alloc) {c : RW} {n : Nat} {d : Bytes} {rd : Reader}
    (h : c.rd.read bufioSize n = (some d, rd)) :
    c.fill alloc n = (.ok d, ⟨rd, overwrite d (grow alloc n c.buf)⟩) := by
  unfold fill
  rw [h]

/-- The two reads of one call, and the memory they leave. -/
theorem read_of_reads (alloc : Alloc) {c : RW} {h d : Bytes} {rd rd' : Reader} {n : Nat}
    (hhead : c.rd.read bufioSize 4 = (some h, rd))
    (hn : uint32 (overwrite h (grow alloc 4 c.buf)) = n)
    (hdata : rd.read bufioSize n = (some d, rd')) :
    c.read alloc =
      (.ok d, ⟨rd', overwrite d (grow alloc n (overwrite h (grow alloc 4 c.buf)))⟩) := by
  unfold read
  rw [fill_of_read alloc hhead]
  show fill alloc (uint32 (overwrite h (grow alloc 4 c.buf))) _ = _
  rw [hn]
  exact fill_of_read alloc hdata

theorem readN_of_read (alloc : Alloc) (n : Nat) {c c' : RW} {o : Outcome Err Bytes}
    (h : c.read alloc = (o, c')) : c.readN alloc (n + 1) = o :: c'.readN alloc n := by
  simp only [readN, h]

/-- Where the memory and what is read for the length are zeros, so is the length, and the message is
taken for an empty one. -/
theorem read_of_blank (alloc : Alloc) {c : RW} {h : Bytes} {rd : Reader} (hbuf : Blank c.buf)
    (hhead : c.rd.read bufioSize 4 = (some h, rd)) (hh : Blank h) :
    ∃ buf, c.read alloc = (.ok [], ⟨rd, buf⟩) ∧ Blank buf := by
  have hbuf' : Blank (overwrite h (grow alloc 4 c.buf)) := hh.overwrite (hbuf.grow alloc 4)
  exact ⟨_, read_of_reads alloc hhead hbuf'.uint32 (Reader.read_zero bufioSize rd), hbuf'⟩

/-- Where both reads are served, the message is returned. -/
theorem read_of_serves (alloc : Alloc) {c : RW} {m rest : Bytes} {ns : List Nat}
    (hlen : m.length < 2 ^ 32) (hc : c.rd.content = putUint32 m.length ++ (m ++ rest))
    (hserves : Reader.Serves bufioSize (4 :: m.length :: ns) c.rd.buffered.length
      c.rd.transport.rest.length c.rd.transport.chunks) :
    ∃ c', c.read alloc = (.ok m, c') ∧ c'.rd.content = rest ∧
      Reader.Serves bufioSize ns c'.rd.buffered.length c'.rd.transport.rest.length
        c'.rd.transport.chunks := by
  obtain ⟨rd, hread, hrd, hserves⟩ := Reader.read_of_serves hserves
  have hhead : c.rd.content.take 4 = putUint32 m.length := by rw [hc]; rfl
  have hbody : rd.content = m ++ rest := by rw [hrd, hc]; rfl
  obtain ⟨rd', hread', hrd', hserves⟩ := Reader.read_of_serves hserves
  rw [hhead] at hread
  rw [hbody, List.take_left] at hread'
  refine ⟨_, read_of_reads alloc hread (uint32_putUint32 hlen _) hread', ?_, hserves⟩
  rw [hrd', hbody, List.drop_left]

end RW

/-- The first message of those that arrive is what the first `Read` returns. -/
theorem read_of_arrives {alloc : Alloc} {m : Bytes} {ms : List Bytes} {chunks : Nat → Nat}
    (h : Arrives alloc (m :: ms) chunks) :
    ((RW.new (wire (m :: ms)) chunks).read alloc).1 = .ok m := by
  unfold Arrives at h
  rw [List.length_cons, RW.readN, List.map_cons] at h
  exact (List.cons.inj h).1

/-! ## Nothing split -/

theorem readN_of_serves (alloc : Alloc) (ms : List Bytes) (hlen : ∀ m ∈ ms, m.length < 2 ^ 32)
    {c : RW} (hc : c.rd.content = wire ms)
    (hserves : Reader.Serves bufioSize (ms.flatMap fun m => [4, m.length]) c.rd.buffered.length
      c.rd.transport.rest.length c.rd.transport.chunks) :
    c.readN alloc ms.length = ms.map .ok := by
  induction ms generalizing c with
  | nil => rfl
  | cons m ms ih =>
    obtain ⟨hm, hms⟩ := List.forall_mem_cons.mp hlen
    rw [wire_cons] at hc
    obtain ⟨c', hread, hc', hserves⟩ := RW.read_of_serves alloc hm hc hserves
    rw [List.length_cons, RW.readN_of_read alloc _ hread, ih hms hc' hserves, List.map_cons]

theorem arrives_of_unsplit (alloc : Alloc) {ms : List Bytes} {chunks : Nat → Nat}
    (hlen : ∀ m ∈ ms, m.length < 2 ^ 32) (h : Unsplit ms chunks) : Arrives alloc ms chunks :=
  readN_of_serves alloc ms hlen rfl h

/-! ## Zeros only -/

/-- Among zeros every message is empty, however short the reads are. -/
theorem readN_of_zeros (alloc : Alloc) (ms : List Bytes) (hms : ∀ m ∈ ms, m = []) {c : RW}
    (hbuf : Blank c.buf) (hc : Blank c.rd.content) (hlen : 4 * ms.length ≤ c.rd.content.length) :
    c.readN alloc ms.length = ms.map .ok := by
  induction ms generalizing c with
  | nil => rfl
  | cons m ms ih =>
    obtain ⟨rfl, hempty⟩ := List.forall_mem_cons.mp hms
    rw [List.length_cons] at hlen
    have hne : c.rd.content ≠ [] := List.ne_nil_of_length_pos (by omega)
    obtain ⟨d, -, hd, hread, happ⟩ := @Reader.read_eq bufioSize 4 (by decide) c.rd hne
    rw [happ, List.length_append] at hlen
    obtain ⟨hblank, hrest⟩ := Blank.append.mp (happ ▸ hc)
    obtain ⟨buf, hread, hbuf⟩ := RW.read_of_blank alloc hbuf (Prod.ext hread rfl) hblank
    have hlen : 4 * ms.length ≤ (c.rd.read bufioSize 4).2.content.length := by omega
    rw [List.length_cons, RW.readN_of_read alloc _ hread, List.map_cons]
    rw [ih hempty hbuf hrest hlen]

theorem wire_of_empty {ms : List Bytes} (hms : ∀ m ∈ ms, m = []) :
    wire ms = List.replicate (4 * ms.length) 0 := by
  induction ms with
  | nil => rfl
  | cons m ms ih =>
    obtain ⟨rfl, hempty⟩ := List.forall_mem_cons.mp hms
    rw [wire_cons, ih hempty]
    show List.replicate 4 0 ++ List.replicate (4 * ms.length) 0 = _
    rw [← List.replicate_add, List.length_cons, Nat.mul_succ, Nat.add_comm]

/-- One zero as the first message: its length is read off its first byte, the rest of the length is
zeros, and the one byte of data is a zero wherever it is read. -/
theorem read_of_zero (alloc : Alloc) {rd : Reader} {zeros : Bytes} (hzeros : Blank zeros)
    (hlen : 4 ≤ zeros.length) (hc : rd.content = 1 :: zeros) :
    ∃ c, (RW.mk rd []).read alloc = (.ok [0], c) ∧ Blank c.buf ∧ Blank c.rd.content ∧
      zeros.length ≤ c.rd.content.length + 4 := by
  obtain ⟨h, hne, hh4, hhead, happ⟩ :=
    @Reader.read_eq bufioSize 4 (by decide) rd (by simp [hc])
  obtain ⟨b, h, rfl⟩ := List.exists_cons_of_ne_nil hne
  rw [hc, List.cons_append] at happ
  obtain ⟨rfl, hsplit⟩ := List.cons.inj happ
  generalize hrd : (rd.read bufioSize 4).2 = rd₁ at hsplit
  obtain ⟨hbh, hb₁⟩ := Blank.append.mp (hsplit ▸ hzeros)
  have hlen₁ := congrArg List.length hsplit
  rw [List.length_append] at hlen₁
  rw [List.length_cons] at hh4
  have hbuf : Blank (h ++ (grow alloc 4 []).drop (h.length + 1)) :=
    Blank.append.mpr ⟨hbh, (blank_grow_nil alloc 4).drop _⟩
  have hone : uint32 (overwrite (1 :: h) (grow alloc 4 [])) = 1 := hbuf.uint32_cons 1
  obtain ⟨d, hne, hd1, hdata, happ⟩ :=
    @Reader.read_eq bufioSize 1 (by decide) rd₁ (List.ne_nil_of_length_pos (by omega))
  obtain ⟨x, rfl⟩ : ∃ x, d = [x] :=
    List.length_eq_one_iff.mp (Nat.le_antisymm hd1 (List.length_pos_of_ne_nil hne))
  obtain ⟨hx, hb₂⟩ := Blank.append.mp (happ ▸ hb₁)
  obtain rfl : x = 0 := hx x (List.mem_singleton_self x)
  refine ⟨_, RW.read_of_reads alloc (Prod.ext hhead hrd) hone (Prod.ext hdata rfl), ?_, hb₂, ?_⟩
  · exact hbuf.overwrite_first alloc 1
  · have hlen₂ := congrArg List.length happ
    rw [List.length_append, List.length_singleton] at hlen₂
    show zeros.length ≤ (rd₁.read bufioSize 1).2.content.length + 4
    omega

theorem arrives_of_silent (alloc : Alloc) {ms : List Bytes} (h : Silent ms) (chunks : Nat → Nat) :
    Arrives alloc ms chunks := by
  cases ms with
  | nil => rfl
  | cons m ms =>
    obtain ⟨hm, hms⟩ := h
    cases hm with
    | inl hm =>
      have hall : ∀ m' ∈ m :: ms, m' = [] := List.forall_mem_cons.mpr ⟨hm, hms⟩
      have hwire : (RW.new (wire (m :: ms)) chunks).rd.content =
          List.replicate (4 * (m :: ms).length) 0 := wire_of_empty hall
      refine readN_of_zeros alloc _ hall (List.forall_mem_nil _) ?_ ?_
      · rw [hwire]
        exact .replicate _
      · have hlen := (congrArg List.length hwire).trans List.length_replicate
        omega
    | inr hm =>
      have hwire : (RW.new (wire (m :: ms)) chunks).rd.content =
          1 :: List.replicate (4 * ms.length + 4) 0 := by
        show wire (m :: ms) = _
        rw [wire_cons, hm, wire_of_empty hms]
        rfl
      obtain ⟨c, hread, hbuf, hc, hlen⟩ :=
        read_of_zero alloc (.replicate _) (by rw [List.length_replicate]; omega) hwire
      rw [List.length_replicate] at hlen
      refine (RW.readN_of_read alloc _ hread).trans ?_
      rw [readN_of_zeros alloc ms hms hbuf hc (by omega), hm]
      rfl

/-! ## One byte to a chunk -/

/-- A reader of single bytes. -/
def singles (bytes : Bytes) : Reader := ⟨[], ⟨bytes, fun _ => 1⟩⟩

theorem read_singles {n : Nat} (hn : 0 < n) (b : UInt8) (rest : Bytes) :
    (singles (b :: rest)).read bufioSize n = (some [b], singles rest) :=
  Reader.read_of_single hn b rest

theorem wire_empty_cons (zeros : Nat) (ms : List Bytes) :
    List.replicate zeros 0 ++ wire ([] :: ms) = List.replicate (zeros + 4) 0 ++ wire ms := by
  rw [List.replicate_add, List.append_assoc, wire_cons]
  rfl

theorem read_zero_of_singles (alloc : Alloc) {buf : Bytes} (hbuf : Blank buf) (rest : Bytes) :
    ∃ buf', (RW.mk (singles (0 :: rest)) buf).read alloc = (.ok [], ⟨singles rest, buf'⟩) ∧
      Blank buf' :=
  RW.read_of_blank alloc hbuf (read_singles (by decide) 0 rest) (Blank.replicate 1)

/-- Once the reader stands on a zero, and its memory is zeros, it returns nothing any more. -/
theorem empty_of_singles (alloc : Alloc) (ms : List Bytes) (zeros : Nat) {buf : Bytes}
    (hbuf : Blank buf)
    (h : (RW.mk (singles (List.replicate (zeros + 1) 0 ++ wire ms)) buf).readN alloc ms.length =
      ms.map .ok) : ∀ m ∈ ms, m = [] := by
  induction ms generalizing zeros buf with
  | nil => exact List.forall_mem_nil _
  | cons m ms ih =>
    obtain ⟨buf', hread, hbuf'⟩ :=
      read_zero_of_singles alloc hbuf (List.replicate zeros 0 ++ wire (m :: ms))
    obtain ⟨hm, hms⟩ := List.cons.inj ((RW.readN_of_read alloc ms.length hread).symm.trans h)
    obtain rfl : [] = m := Outcome.ok.inj hm
    rw [wire_empty_cons] at hms
    exact List.forall_mem_cons.mpr ⟨rfl, ih (zeros + 3) hbuf' hms⟩

/-- The first message, a byte at a time: its length is taken from the first of the four bytes, and
what is returned as the data is the second. -/
theorem read_first_of_singles (alloc : Alloc) {l x : UInt8} (hl : l ≠ 0) (rest : Bytes) :
    (RW.mk (singles (l :: x :: rest)) []).read alloc =
      (.ok [x], ⟨singles rest,
        overwrite [x] (grow alloc l.toNat (overwrite [l] (grow alloc 4 [])))⟩) := by
  have hlen : uint32 (overwrite [l] (grow alloc 4 [])) = l.toNat :=
    ((blank_grow_nil alloc 4).drop 1).uint32_cons l
  have hpos : 0 < l.toNat := Nat.pos_of_ne_zero fun h => hl (UInt8.toNat_inj.mp h)
  exact RW.read_of_reads alloc (read_singles (by decide) l (x :: rest)) hlen
    (read_singles hpos x rest)

theorem silent_of_singles (alloc : Alloc) {ms : List Bytes} (h : Arrives alloc ms fun _ => 1) :
    Silent ms := by
  cases ms with
  | nil => trivial
  | cons m ms =>
    have hwire : wire (m :: ms) = UInt8.ofNat m.length :: UInt8.ofNat (m.length / 2 ^ 8) ::
        UInt8.ofNat (m.length / 2 ^ 16) :: UInt8.ofNat (m.length / 2 ^ 24) :: (m ++ wire ms) :=
      wire_cons m ms
    have h : (RW.mk (singles (wire (m :: ms))) []).readN alloc (ms.length + 1) =
        .ok m :: ms.map .ok := h
    rw [hwire] at h
    by_cases hl : UInt8.ofNat m.length = 0
    · -- read as an empty message, so it is one, and what is left of its length is zeros
      rw [hl] at h
      obtain ⟨buf, hread, hbuf⟩ := read_zero_of_singles alloc (List.forall_mem_nil _)
        (UInt8.ofNat (m.length / 2 ^ 8) :: UInt8.ofNat (m.length / 2 ^ 16) ::
          UInt8.ofNat (m.length / 2 ^ 24) :: (m ++ wire ms))
      rw [RW.readN_of_read alloc _ hread] at h
      obtain ⟨hm, hms⟩ := List.cons.inj h
      obtain rfl : [] = m := Outcome.ok.inj hm
      exact ⟨.inl rfl, empty_of_singles alloc ms 2 hbuf hms⟩
    · -- read as one byte, the second one of its length, and that is zero for a message of one byte
      rw [RW.readN_of_read alloc _ (read_first_of_singles alloc hl _)] at h
      obtain ⟨hm, hms⟩ := List.cons.inj h
      have hm : [UInt8.ofNat (m.length / 2 ^ 8)] = m := Outcome.ok.inj hm
      have hone : m.length = 1 := by rw [← hm]; rfl
      rw [hone] at hm
      obtain rfl : [0] = m := hm
      have hbuf : Blank (overwrite [0] (grow alloc 1 (1 :: (grow alloc 4 []).drop 1))) :=
        ((blank_grow_nil alloc 4).drop 1).overwrite_first alloc 1
      exact ⟨.inr rfl, empty_of_singles alloc ms 2 hbuf hms⟩

/-! ## What arrives -/

/-- **However the transport splits them, the messages arrive exactly if they are silent**: all
empty, but for a first that may be one zero byte. Any messages whose lengths fit arrive where no
read is short, and that is up to the transport. -/
theorem arrives_iff_silent (alloc : Alloc) (ms : List Bytes) :
    ((∀ chunks, Arrives alloc ms chunks) ↔ Silent ms) ∧
      ∀ chunks, (∀ m ∈ ms, m.length < 2 ^ 32) → Unsplit ms chunks → Arrives alloc ms chunks := by
  refine ⟨⟨fun h => silent_of_singles alloc (h _), arrives_of_silent alloc⟩, ?_⟩
  intro chunks hlen h
  exact arrives_of_unsplit alloc hlen h

/-- Two words, `tip` and `ok`, a byte at a time: the first comes out as a zero, the second as
nothing. -/
theorem words_garbled :
    (RW.new (wire [[116, 105, 112], [111, 107]]) fun _ => 1).readN (fun _ _ => 64) 2 =
        [.ok [0], .ok []] ∧
      ¬ Arrives (fun _ _ => 64) [[116, 105, 112], [111, 107]] fun _ => 1 := by
  decide

/-- In one chunk, or in two with the cut between the words, they arrive. -/
theorem words_arrive :
    Silent [[0], []] ∧ Arrives (fun _ _ => 64) [[0], []] (fun _ => 1) ∧
      Unsplit [[116, 105, 112], [111, 107]] (fun _ => 13) ∧
      Arrives (fun _ _ => 64) [[116, 105, 112], [111, 107]] (fun _ => 13) ∧
      Unsplit [[116, 105, 112], [111, 107]] (fun _ => 7) ∧
      Arrives (fun _ _ => 64) [[116, 105, 112], [111, 107]] fun _ => 7 :=
  have hsilent : Silent [[0], []] := ⟨.inr rfl, by decide⟩
  ⟨hsilent, (arrives_iff_silent _ _).1.mpr hsilent _,
    by decide, (arrives_iff_silent _ _).2 _ (by decide) (by decide),
    by decide, (arrives_iff_silent _ _).2 _ (by decide) (by decide)⟩

end Didem.Stream
