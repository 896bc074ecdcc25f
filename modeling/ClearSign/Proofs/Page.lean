import ClearSign.Page
/-!
# What a page shows

Writing a page leaves the bytes of that page and a zero after them over what stood in the buffer;
on a buffer of zeros there are only zeros after them.  `view` tells which bytes these are without a
buffer, and `flatMap_chunk_count` puts the pages of a text together again.  `Pages` says what writing
page after page comes to, for a buffer with any contents.
-/

namespace ClearSign.Page

/-- The bytes, with zeros after them up to `size`. -/
def padded (bytes : Bytes) (size : Nat) : Bytes :=
  bytes ++ List.replicate (size - bytes.length) 0

/-- The bytes on a page of a buffer with `size` cells, and how many pages there are. -/
def view (text : Bytes) (size page : Nat) : Except Status (Bytes × Nat) :=
  if size ≤ 1 then .error .unexpectedEnd
  else if maxCount < count text.length (size - 1) then .error .valueOutOfRange
  else if count text.length (size - 1) ≤ page then .error .pageOutOfRange
  else .ok (chunk text (size - 1) page, count text.length (size - 1))

theorem length_padded {bytes : Bytes} {size : Nat} (h : bytes.length ≤ size) :
    (padded bytes size).length = size := by
  rw [padded, List.length_append, List.length_replicate]
  omega

theorem untilZero_padded {bytes : Bytes} {size : Nat} (h : bytes.length < size) (hz : 0 ∉ bytes) :
    Bytes.untilZero (padded bytes size) = bytes := by
  obtain ⟨more, hmore⟩ : ∃ more, size - bytes.length = more + 1 :=
    ⟨size - bytes.length - 1, by omega⟩
  rw [padded, hmore, List.replicate_succ]
  exact Bytes.untilZero_append_zero hz _

theorem view_eq_ok {text bytes : Bytes} {size page n : Nat}
    (h : view text size page = .ok (bytes, n)) :
    1 < size ∧ n = count text.length (size - 1) ∧ n ≤ maxCount ∧ page < n ∧
      bytes = chunk text (size - 1) page := by
  unfold view at h
  split at h
  · cases h
  · split at h
    · cases h
    · split at h
      · cases h
      · cases h
        exact ⟨by omega, rfl, by omega, by omega, rfl⟩

theorem view_eq_error {text : Bytes} {size page : Nat} {s : Status}
    (h : view text size page = .error s) :
    s = .unexpectedEnd ∨ s = .valueOutOfRange ∨ s = .pageOutOfRange := by
  unfold view at h
  split at h
  · cases h
    exact .inl rfl
  · split at h
    · cases h
      exact .inr (.inl rfl)
    · split at h
      · cases h
        exact .inr (.inr rfl)
      · cases h

/-! ## Writing -/

/-- The bytes and a zero, over the front of what stood in the buffer. -/
def terminated (bytes out : Bytes) : Bytes := bytes ++ 0 :: out.drop (bytes.length + 1)

theorem untilZero_terminated {bytes : Bytes} (h : 0 ∉ bytes) (out : Bytes) :
    Bytes.untilZero (terminated bytes out) = bytes :=
  Bytes.untilZero_append_zero h _

theorem terminated_zeros {bytes : Bytes} {size : Nat} (h : bytes.length < size) :
    terminated bytes (List.replicate size 0) = padded bytes size := by
  obtain ⟨more, hmore⟩ : ∃ more, size = bytes.length + (more + 1) :=
    ⟨size - bytes.length - 1, by omega⟩
  have hdrop : size - (bytes.length + 1) = more := by omega
  have hrest : size - bytes.length = more + 1 := by omega
  rw [terminated, List.drop_replicate, hdrop, padded, hrest]
  rfl

theorem write_eq (text out : Bytes) (page : Nat) :
    write text out page =
      .ok (match view text out.length page with
        | .ok (bytes, n) => .done (terminated bytes out) n
        | .error s => .failed out s) := by
  have hroom : capacity out = out.length - 1 := rfl
  unfold write view
  simp only [hroom]
  by_cases hsize : out.length ≤ 1
  · rw [if_pos (by omega), if_pos hsize]
    rfl
  · rw [if_neg (by omega), if_neg hsize]
    split
    · rfl
    · split
      · rfl
      · have hlen := length_chunk_le text (out.length - 1) page
        rw [putTerminated_eq (by omega)]
        rfl

theorem write_zeros (text : Bytes) (size page : Nat) :
    write text (List.replicate size 0) page =
      .ok (match view text size page with
        | .ok (bytes, n) => .done (padded bytes size) n
        | .error s => .failed (List.replicate size 0) s) := by
  rw [write_eq, List.length_replicate]
  cases h : view text size page with
  | error s => rfl
  | ok shown =>
      obtain ⟨bytes, n⟩ := shown
      obtain ⟨hsize, -, -, -, rfl⟩ := view_eq_ok h
      have hlen := length_chunk_le text (size - 1) page
      dsimp only
      rw [terminated_zeros (by omega)]

theorem writeText_zeros (text : Except Status Bytes) (size page : Nat) :
    writeText (liftM text) (List.replicate size 0) page =
      .ok (match text.bind fun t => view t size page with
        | .ok (bytes, n) => .done (padded bytes size) n
        | .error s => .failed (List.replicate size 0) s) := by
  cases text with
  | ok t => exact write_zeros t size page
  | error s => rfl

theorem writeTitle_zeros (label : Bytes) (size : Nat) :
    writeTitle label (List.replicate size 0) =
      .ok (if size ≤ label.length then .failed (List.replicate size 0) .unexpectedEnd
        else .done (padded label size) ()) := by
  unfold writeTitle
  rw [List.length_replicate]
  split
  · rfl
  · rw [putTerminated_eq (by rw [List.length_replicate]; omega)]
    simp only [Checked.ok_bind]
    rw [← terminated_zeros (by omega)]
    rfl

/-! ## All pages of a text -/

theorem le_count_mul (length : Nat) {capacity : Nat} (h : 0 < capacity) :
    length ≤ count length capacity * capacity := by
  have hdiv := Nat.div_add_mod (length + capacity - 1) capacity
  have hmod := Nat.mod_lt (length + capacity - 1) h
  have hmax : (length + capacity - 1) / capacity ≤ count length capacity := Nat.le_max_right ..
  have hmul := Nat.mul_le_mul_left capacity hmax
  rw [Nat.mul_comm capacity (count _ _)] at hmul
  omega

theorem count_pos (length capacity : Nat) : 0 < count length capacity :=
  Nat.lt_of_lt_of_le Nat.one_pos (Nat.le_max_left 1 _)

/-- No page is empty, unless the text is. -/
theorem count_le (length : Nat) {capacity : Nat} (h : 0 < capacity) :
    count length capacity ≤ max 1 length := by
  have hdiv : (length + capacity - 1) / capacity ≤ length := by
    rw [Nat.div_le_iff_le_mul_add_pred h]
    have hmul := Nat.le_mul_of_pos_left length h
    omega
  exact Nat.max_le.2 ⟨Nat.le_max_left _ _, Nat.le_trans hdiv (Nat.le_max_right _ _)⟩

/-- A text that is not too long is refused nothing but pages it does not have. -/
theorem view_eq {text : Bytes} {size : Nat} (hsize : 2 ≤ size) (hlen : text.length ≤ maxCount)
    (page : Nat) :
    view text size page =
      if page < count text.length (size - 1) then
        .ok (chunk text (size - 1) page, count text.length (size - 1))
      else .error .pageOutOfRange := by
  have hcount : count text.length (size - 1) ≤ maxCount :=
    Nat.le_trans (count_le text.length (by omega)) (Nat.max_le.2 ⟨by decide, hlen⟩)
  unfold view
  rw [if_neg (by omega), if_neg (by omega)]
  by_cases hpage : page < count text.length (size - 1)
  · rw [if_pos hpage, if_neg (by omega)]
  · rw [if_neg hpage, if_pos (by omega)]

theorem flatMap_chunk (text : Bytes) (capacity pages : Nat) :
    (List.range pages).flatMap (chunk text capacity) = text.take (pages * capacity) := by
  induction pages with
  | zero => simp
  | succ pages ih =>
      rw [List.range_succ, List.flatMap_append, ih, Nat.succ_mul, List.take_add]
      simp [chunk]

/-- The pages of a text make up the whole of it. -/
theorem flatMap_chunk_count (text : Bytes) {capacity : Nat} (h : 0 < capacity) :
    (List.range (count text.length capacity)).flatMap (chunk text capacity) = text := by
  rw [flatMap_chunk, List.take_of_length_le (le_count_mul text.length h)]

theorem mem_of_mem_chunk {b : UInt8} {text : Bytes} {capacity page : Nat}
    (h : b ∈ chunk text capacity page) : b ∈ text :=
  List.mem_of_mem_drop (List.mem_of_mem_take h)

/-! ## Pages of a buffer -/

/-- Writing page after page leaves these pieces: each stands, with a zero after it and none within,
over what was in the buffer.  There are no other pages. -/
structure Pages (source : Except Stop Bytes) (out : Bytes) (pieces : List Bytes) : Prop where
  write_eq : ∀ page piece, pieces[page]? = some piece →
    writeText source out page = .ok (.done (terminated piece out) pieces.length)
  beyond : ∀ page, pieces.length ≤ page →
    writeText source out page = .ok (.failed out .pageOutOfRange)
  visible : ∀ piece ∈ pieces, 0 ∉ piece

theorem pages_text {text out : Bytes} (hout : 2 ≤ out.length) (hlen : text.length ≤ maxCount)
    (hz : 0 ∉ text) :
    Pages (.ok text) out
      ((List.range (count text.length (out.length - 1))).map (chunk text (out.length - 1))) := by
  have hwrite : ∀ page, writeText (.ok text) out page =
      .ok (match view text out.length page with
        | .ok (bytes, n) => .done (terminated bytes out) n
        | .error s => .failed out s) := fun page => write_eq text out page
  refine ⟨?_, ?_, ?_⟩
  · intro page piece hpiece
    obtain ⟨i, hi, rfl⟩ := Option.map_eq_some_iff.1 (List.getElem?_map ▸ hpiece)
    obtain ⟨hpage, rfl⟩ := List.getElem?_eq_some_iff.1 hi
    rw [List.length_range] at hpage
    rw [hwrite, view_eq hout hlen, if_pos hpage, List.length_map, List.length_range,
      List.getElem_range]
  · intro page hpage
    rw [List.length_map, List.length_range] at hpage
    rw [hwrite, view_eq hout hlen, if_neg (by omega)]
  · intro piece hpiece hzero
    obtain ⟨page, -, rfl⟩ := List.mem_map.1 hpiece
    exact hz (mem_of_mem_chunk hzero)

section

variable {source : Except Stop Bytes} {out : Bytes} {xs ys : List Bytes}

theorem Pages.length_le (hx : Pages source out xs) (hy : Pages source out ys) :
    xs.length ≤ ys.length := by
  -- otherwise the first page that `ys` lacks is one of `xs`
  apply Nat.not_lt.1
  intro hlt
  have hshown := hx.write_eq ys.length xs[ys.length] (List.getElem?_eq_getElem hlt)
  have houtcome := congrArg Written.outcome
    (Except.ok.inj (hshown.symm.trans (hy.beyond ys.length (Nat.le_refl _))))
  cases houtcome

/-- What stands on a page can be seen, so there is one way to cut a buffer into pages. -/
theorem Pages.unique (hx : Pages source out xs) (hy : Pages source out ys) : xs = ys := by
  apply List.ext_getElem (Nat.le_antisymm (hx.length_le hy) (hy.length_le hx))
  intro page hpage hpage'
  have hwritten := (hx.write_eq page _ (List.getElem?_eq_getElem hpage)).symm.trans
    (hy.write_eq page _ (List.getElem?_eq_getElem hpage'))
  have hbuffer : terminated xs[page] out = terminated ys[page] out :=
    congrArg Written.buffer (Except.ok.inj hwritten)
  calc xs[page] = Bytes.untilZero (terminated xs[page] out) :=
        (untilZero_terminated (hx.visible _ (List.getElem_mem hpage)) out).symm
    _ = Bytes.untilZero (terminated ys[page] out) := by rw [hbuffer]
    _ = ys[page] := untilZero_terminated (hy.visible _ (List.getElem_mem hpage')) out

end

end ClearSign.Page
