import Varco.Query.Params

/-!
# Pagination

`paged_response` of `varco_core.dto.pagination`, and a client that fetches page after page with the
offset of the cursor it was given (`followPages`). With the true count, and without a count, the
pages are the rows, cut into pieces (`followPages_rows`).
-/

namespace Varco

open Option

structure SortCursorField where
  field : String
  order : SortOrder

/-- `PageCursor`, of which the limit is at least 1 and the offset at least 0. -/
structure PageCursor where
  limit : ℤ
  offset : ℤ
  sort : List SortCursorField
  query : Option String
  one_le_limit : 1 ≤ limit
  offset_nonneg : 0 ≤ offset

/-- `PageCursor(limit=…, offset=…, sort=…, query=…)`, or none for a `ValidationError`. -/
def PageCursor.validate (limit offset : ℤ) (sort : List SortCursorField) (query : Option String) :
    Option PageCursor :=
  if h : 1 ≤ limit ∧ 0 ≤ offset then some ⟨limit, offset, sort, query, h.1, h.2⟩ else none

/-- `PagedReadDTO`, of which the total count is at least 0. -/
structure PagedReadDTO (T : Type) where
  results : List T
  count : ℕ
  totalCount : Option ℤ
  next : Option PageCursor
  total_nonneg : ∀ total ∈ totalCount, 0 ≤ total

/-- Whether a next page is announced: the rows that are left decide if they are counted, else
whether the page is full. -/
def hasNext (count : ℕ) (nextOffset : ℤ) (limit totalCount : Option ℤ) : Bool :=
  match limit, totalCount with
  | none, _ => false
  | some _, some total => nextOffset < total
  | some limit, none => count = limit

section

variable {T : Type}

/-- `paged_response`, or none for a `ValidationError`. -/
def pagedResponse (results : List T) (params : QueryParams) (totalCount : Option ℤ)
    (rawQuery : Option String) : Option (PagedReadDTO T) := do
  let count := results.length
  let nextOffset := params.offset.getD 0 + count
  let next ←
    match params.limit with
    | none => some none
    | some limit =>
      if hasNext count nextOffset params.limit totalCount then
        (PageCursor.validate limit nextOffset (params.sort.map fun s => ⟨s.field, s.order⟩)
          rawQuery).map some
      else some none
  if h : ∀ total ∈ totalCount, 0 ≤ total then return ⟨results, count, totalCount, next, h⟩
  else none

/-! ## A client that follows the cursors -/

/-- `rows[offset : offset + limit]`, for an offset that is not negative. -/
def fetchPage (rows : List T) (params : QueryParams) : List T :=
  let page := rows.drop (params.offset.getD 0).toNat
  params.limit.elim page fun limit => page.take limit.toNat

def PageCursor.params (cursor : PageCursor) (params : QueryParams) : QueryParams :=
  { params with
    sort := cursor.sort.map fun s => ⟨s.field, s.order⟩
    limit := some cursor.limit
    offset := some cursor.offset }

/-- The pages that a client fetches, if at most `n` requests are enough. -/
def followPages (rows : List T) (totalCount : Option ℤ) (rawQuery : Option String) :
    ℕ → QueryParams → Option (List (List T))
  | 0, _ => none
  | n + 1, params => do
    let page ← pagedResponse (fetchPage rows params) params totalCount rawQuery
    match page.next with
    | none => return [page.results]
    | some cursor =>
      let pages ← followPages rows totalCount rawQuery n (cursor.params params)
      return page.results :: pages

variable {rows : List T} {totalCount : Option ℤ} {rawQuery : Option String} {params : QueryParams}
  {limit offset n : ℕ}

theorem fetchPage_eq (rows : List T) (hlimit : params.limit = some (limit : ℤ))
    (hoffset : params.offset = some (offset : ℤ)) :
    fetchPage rows params = (rows.drop offset).take limit := by
  unfold fetchPage
  rw [hlimit, hoffset]
  rfl

/-- **What a page announces**: the next page from where it ends, or nothing. -/
theorem pagedResponse_eq (results : List T) (rawQuery : Option String)
    (hlimit : params.limit = some (limit : ℤ))
    (hpos : 1 ≤ limit) (hoffset : params.offset = some (offset : ℤ))
    (htotal : ∀ total ∈ totalCount, 0 ≤ total) :
    ∃ page, pagedResponse results params totalCount rawQuery = some page ∧ page.results = results ∧
      if hasNext results.length ((offset + results.length : ℕ) : ℤ) params.limit totalCount then
        ∃ cursor, page.next = some cursor ∧ cursor.limit = limit ∧
          cursor.offset = ((offset + results.length : ℕ) : ℤ)
      else page.next = none := by
  have hend : params.offset.getD 0 + (results.length : ℤ) =
      ((offset + results.length : ℕ) : ℤ) := by
    rw [hoffset]
    push_cast
    rfl
  have hvalid : 1 ≤ (limit : ℤ) ∧ 0 ≤ ((offset + results.length : ℕ) : ℤ) := by omega
  unfold pagedResponse
  simp only [hend, hlimit]
  split_ifs with hnext
  · rw [PageCursor.validate, dif_pos hvalid, map_some]
    simp only [bind_eq_bind, bind_some]
    exact ⟨_, rfl, rfl, _, rfl, rfl, rfl⟩
  · simp only [bind_eq_bind, bind_some]
    exact ⟨_, rfl, rfl, rfl⟩

/-- From any offset within the rows, the pages are the rows that are left; each page but the last is
full, so that one request for each row that is left is enough. -/
theorem followPages_drop (rawQuery : Option String) (hpos : 1 ≤ limit)
    (htotal : totalCount = none ∨ totalCount = some (rows.length : ℤ)) (left : ℕ) :
    ∀ (params : QueryParams) (offset : ℕ), params.limit = some (limit : ℤ) →
      params.offset = some (offset : ℤ) → offset + left = rows.length →
      ∃ pages, pages.flatten = rows.drop offset ∧
        ∀ n, left + 1 ≤ n → followPages rows totalCount rawQuery n params = some pages := by
  induction left using Nat.strong_induction_on with
  | _ left ih =>
    intro params offset hlimit hoffset hleft
    have hnonneg : ∀ total ∈ totalCount, 0 ≤ total := by
      rintro total hmem
      rcases htotal with rfl | rfl
      · cases hmem
      · cases mem_some_iff.mp hmem
        exact Int.natCast_nonneg _
    have hpage := fetchPage_eq rows hlimit hoffset
    have hlength : ((rows.drop offset).take limit).length = min limit left := by
      rw [List.length_take, List.length_drop]
      omega
    obtain ⟨page, hresponse, hresults, hnext⟩ := pagedResponse_eq
      ((rows.drop offset).take limit) rawQuery hlimit hpos hoffset hnonneg
    rw [← hpage] at hresponse
    split_ifs at hnext with hmore
    · -- the page was full, and the rest is reached from where it ends
      obtain ⟨cursor, hcursor, hcl, hco⟩ := hnext
      have hfull : limit ≤ left := by
        rcases htotal with rfl | rfl
        · simp only [hasNext, hlimit, hlength, decide_eq_true_eq] at hmore
          omega
        · simp only [hasNext, hlimit, hlength, decide_eq_true_eq] at hmore
          omega
      rw [hlength, min_eq_left hfull] at hco
      obtain ⟨pages, hflatten, hfollow⟩ := ih (left - limit) (by omega)
        (cursor.params params) (offset + limit) (congrArg some hcl) (congrArg some hco) (by omega)
      refine ⟨(rows.drop offset).take limit :: pages, ?_, fun n hn => ?_⟩
      · rw [List.flatten_cons, hflatten, ← List.drop_drop, List.take_append_drop]
      · obtain ⟨m, rfl⟩ : ∃ m, n = m + 1 := ⟨n - 1, by omega⟩
        rw [followPages, hresponse]
        simp only [bind_eq_bind, bind_some, hcursor, hfollow m (by omega), hresults]
        rfl
    · -- no row is left behind the page
      have hlast : left ≤ limit := by
        rcases htotal with rfl | rfl
        · simp only [hasNext, hlimit, hlength, decide_eq_true_eq] at hmore
          omega
        · simp only [hasNext, hlimit, hlength, decide_eq_true_eq] at hmore
          omega
      refine ⟨[(rows.drop offset).take limit], ?_, fun n hn => ?_⟩
      · rw [List.flatten_singleton, List.take_of_length_le]
        rw [List.length_drop]
        omega
      · obtain ⟨m, rfl⟩ : ∃ m, n = m + 1 := ⟨n - 1, by omega⟩
        rw [followPages, hresponse]
        simp only [bind_eq_bind, bind_some, hnext, hresults]
        rfl

/-- **The pages are the rows**: following the cursors ends, and no row is skipped or repeated. -/
theorem followPages_rows (rows : List T) (rawQuery : Option String) (params : QueryParams)
    {limit : ℤ} (hpos : 1 ≤ limit) {totalCount : Option ℤ}
    (htotal : totalCount = none ∨ totalCount = some (rows.length : ℤ)) :
    ∃ requests pages, pages.flatten = rows ∧ ∀ n, requests ≤ n →
      followPages rows totalCount rawQuery n
        { params with limit := some limit, offset := some 0 } = some pages := by
  obtain ⟨size, rfl⟩ := Int.eq_ofNat_of_zero_le (by omega : 0 ≤ limit)
  obtain ⟨pages, hflatten, hfollow⟩ := followPages_drop rawQuery (by omega) htotal
    rows.length { params with limit := some (size : ℤ), offset := some 0 } 0 rfl rfl
    (Nat.zero_add _)
  exact ⟨rows.length + 1, pages, hflatten, hfollow⟩

/-- Four rows in pages of two, with their count. -/
theorem followPages_rows_four : ∃ requests pages, pages.flatten = [1, 2, 3, 4] ∧ ∀ n, requests ≤ n →
    followPages [1, 2, 3, 4] (some 4) none n { limit := some 2, offset := some 0 } = some pages :=
  followPages_rows [1, 2, 3, 4] none {} (by decide) (.inr rfl)

end

end Varco
