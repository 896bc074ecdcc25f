import ClearSign.Proofs.Rlp.RoundTrip
/-!
# What a scan makes of any bytes

A scan takes items off the front until nothing is left or no item stands in front.  Each item takes
up a chunk of the bytes, and the chunks and what is left over make up the bytes again, also where
the bytes are no row of items.

* `length_add_length_le_of_takes`: each item costs a byte, so a scan ends.
* `flatten_chunks_scan`, `map_readItem_chunks_scan`: no byte is lost or read twice, and each chunk is
  its item by itself.
* `scan_append`: what stands after a row of items has no part in it, and is scanned as if it stood
  alone.
-/

namespace ClearSign.Rlp

/-! ## Chunks -/

/-- The bytes that the items take up, each of them given with what is left after it. -/
def chunks : Bytes → List (Item × Bytes) → List Bytes
  | _, [] => []
  | bs, (_, rest) :: items => bs.take (bs.length - rest.length) :: chunks rest items

/-- What is left after all the items. -/
def leftover : Bytes → List (Item × Bytes) → Bytes
  | bs, [] => bs
  | _, (_, rest) :: items => leftover rest items

variable {bs rest : Bytes} {item : Item} {items : List Item}

theorem length_add_length_le_of_takes (h : Takes bs items rest) :
    items.length + rest.length ≤ bs.length := by
  induction items generalizing bs with
  | nil =>
      rw [takes_nil.1 h]
      exact Nat.le_of_eq (Nat.zero_add _)
  | cons item items ih =>
      obtain ⟨next, hread, htakes⟩ := takes_cons.1 h
      have hnext := ih htakes
      have hconsumes := readItem_consumes hread
      rw [List.length_cons]
      omega

/-- The chunk that an item takes up is the item and nothing else. -/
theorem exists_chunk_of_readItem (h : readItem bs = .ok (item, rest)) :
    bs = bs.take (bs.length - rest.length) ++ rest ∧
      readItem (bs.take (bs.length - rest.length)) = .ok (item, []) := by
  obtain ⟨header, hheader, happend⟩ := exists_front_of_readItem h
  have htake : bs.take (bs.length - rest.length) = header ++ item.payload := by
    rw [happend, List.length_append, Nat.add_sub_cancel, List.take_left]
  rw [htake]
  exact ⟨happend, readItem_eq_ok_iff.2 ⟨header, hheader, (List.append_nil _).symm⟩⟩

/-! ## Scans -/

theorem takes_scan (bs : Bytes) :
    Takes bs ((scan bs).items.map Prod.fst) (leftover bs (scan bs).items) := by
  induction bs using scan.induct with
  | case1 =>
      rw [scan_nil]
      rfl
  | case2 b bs e h =>
      rw [scan_of_error (List.cons_ne_nil b bs) h]
      rfl
  | case3 b bs item rest h ih =>
      rw [scan_of_ok h]
      exact ⟨rest, h, ih⟩

theorem flatten_chunks_scan (bs : Bytes) :
    (chunks bs (scan bs).items).flatten ++ leftover bs (scan bs).items = bs := by
  induction bs using scan.induct with
  | case1 =>
      rw [scan_nil]
      rfl
  | case2 b bs e h =>
      rw [scan_of_error (List.cons_ne_nil b bs) h]
      rfl
  | case3 b bs item rest h ih =>
      obtain ⟨happend, -⟩ := exists_chunk_of_readItem h
      rw [scan_of_ok h]
      simp only [Scan.cons, chunks, leftover, List.flatten_cons, List.append_assoc, ih]
      exact happend.symm

theorem map_readItem_chunks_scan (bs : Bytes) :
    (chunks bs (scan bs).items).map readItem =
      (scan bs).items.map fun p => .ok (p.1, []) := by
  induction bs using scan.induct with
  | case1 =>
      rw [scan_nil]
      rfl
  | case2 b bs e h =>
      rw [scan_of_error (List.cons_ne_nil b bs) h]
      rfl
  | case3 b bs item rest h ih =>
      obtain ⟨-, hchunk⟩ := exists_chunk_of_readItem h
      rw [scan_of_ok h]
      simp only [Scan.cons, chunks, List.map_cons, hchunk, ih]

/-- A scan stops at the end of the bytes, or where no item stands in front. -/
theorem stop_scan_cases (bs : Bytes) :
    (scan bs).stop = none ∧ leftover bs (scan bs).items = [] ∨
      ∃ e, (scan bs).stop = some e ∧ leftover bs (scan bs).items ≠ [] ∧
        readItem (leftover bs (scan bs).items) = .error e := by
  induction bs using scan.induct with
  | case1 =>
      rw [scan_nil]
      exact .inl ⟨rfl, rfl⟩
  | case2 b bs e h =>
      rw [scan_of_error (List.cons_ne_nil b bs) h]
      exact .inr ⟨e, rfl, List.cons_ne_nil b bs, h⟩
  | case3 b bs item rest h ih =>
      rw [scan_of_ok h]
      exact ih

theorem scan_append {bs : Bytes} (h : (scan bs).stop = none) (more : Bytes) :
    scan (bs ++ more) =
      ⟨(scan bs).items.map (fun p => (p.1, p.2 ++ more)) ++ (scan more).items,
        (scan more).stop⟩ := by
  induction bs using scan.induct with
  | case1 =>
      rw [scan_nil]
      rfl
  | case2 b bs e herror =>
      rw [scan_of_error (List.cons_ne_nil b bs) herror] at h
      cases h
  | case3 b bs item rest hread ih =>
      rw [scan_of_ok hread] at h ⊢
      rw [scan_of_ok (readItem_append hread more), ih h]
      rfl

/-- A scan ends after at most as many items as there are bytes, and shares the bytes out into the
chunks of its items and what is left over.  A row of items is scanned in parts, whatever stands in
the second part.  Strings and lists in their shortest form are found again in order, a string under
the kind that its bytes tell. -/
theorem scan_partitions :
    (∀ bs : Bytes,
        (∀ items rest, Takes bs items rest → items.length ≤ bs.length) ∧
          (scan bs).items.length ≤ bs.length ∧
          (chunks bs (scan bs).items).flatten ++ leftover bs (scan bs).items = bs ∧
          ((chunks bs (scan bs).items).map readItem =
            (scan bs).items.map fun p => .ok (p.1, [])) ∧
          ((scan bs).stop = none ∧ leftover bs (scan bs).items = [] ∨
            ∃ e, (scan bs).stop = some e ∧ leftover bs (scan bs).items ≠ [] ∧
              readItem (leftover bs (scan bs).items) = .error e)) ∧
      (∀ (bs more : Bytes) (items : List Item), Splits bs items →
        (scan (bs ++ more)).items.map Prod.fst = items ++ (scan more).items.map Prod.fst ∧
          (scan (bs ++ more)).stop = (scan more).stop) ∧
      ∀ items : List Item,
        (∀ item ∈ items, item.IsCanonical ∧ item.payload.length < 2 ^ 64) →
          Splits (items.flatMap Item.encode) items := by
  refine ⟨?_, ?_, ?_⟩
  · intro bs
    have hcount : ∀ items rest, Takes bs items rest → items.length ≤ bs.length := by
      intro items rest h
      have hlength := length_add_length_le_of_takes h
      omega
    have hscan := hcount _ _ (takes_scan bs)
    rw [List.length_map] at hscan
    exact ⟨hcount, hscan, flatten_chunks_scan bs, map_readItem_chunks_scan bs, stop_scan_cases bs⟩
  · intro bs more items h
    obtain ⟨hstop, hitems⟩ := h
    rw [scan_append hstop, ← hitems]
    refine ⟨?_, rfl⟩
    rw [List.map_append, List.map_map]
    rfl
  · intro items h
    exact splits_encode (fun item hi => (h item hi).1) fun item hi => (h item hi).2

/-- A byte by itself, a string and an empty list. -/
def threeItems : List Item :=
  [.ofString [0x05], .ofString (List.replicate 60 0x0A), .ofList []]

/-- The three are found in front of a string that is cut short, which is left over. -/
theorem threeItems_scanned :
    Splits (threeItems.flatMap Item.encode) threeItems ∧
      (scan (threeItems.flatMap Item.encode ++ [0x83, 0x01])).items.map Prod.fst = threeItems ∧
      (scan (threeItems.flatMap Item.encode ++ [0x83, 0x01])).stop =
        some (.status .unexpectedEnd) := by
  obtain ⟨-, hparts, hencode⟩ := scan_partitions
  have hread : readItem [0x83, 0x01] = .error (.status .unexpectedEnd) := by
    rw [readItem_short (Marker.ofByte_short_string (by decide) (by decide))]
    exact if_pos (by decide)
  have hcut : scan [0x83, 0x01] = ⟨[], some (.status .unexpectedEnd)⟩ :=
    scan_of_error (List.cons_ne_nil _ _) hread
  have hlong : (List.replicate 60 (0x0A : UInt8)).length < 2 ^ 64 := by
    rw [List.length_replicate]
    decide
  have hthree : Splits (threeItems.flatMap Item.encode) threeItems := by
    apply hencode
    intro item hitem
    simp only [threeItems, List.mem_cons, List.not_mem_nil, or_false] at hitem
    rcases hitem with rfl | rfl | rfl
    · exact ⟨Item.isCanonical_ofString _, by decide⟩
    · exact ⟨Item.isCanonical_ofString _, hlong⟩
    · exact ⟨Item.isCanonical_ofList _, by decide⟩
  obtain ⟨hitems, hstop⟩ := hparts _ [0x83, 0x01] _ hthree
  rw [hcut] at hitems hstop
  rw [List.map_nil, List.append_nil] at hitems
  exact ⟨hthree, hitems, hstop⟩

end ClearSign.Rlp
