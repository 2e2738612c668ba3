import Mathlib
import ServiceClient.Http.Request
import ServiceClient.Proofs.Text.Blank
import ServiceClient.Proofs.Text.Percent

/-! Query strings are made of unreserved characters, escapes, equals signs and ampersands. Neither of
these two marks is left in an encoded name or value, so the items are found in the string again. -/

namespace ServiceClient.Http

open Text.Percent (IsEncoded escape)

def queryMarks : List Char := ['&', '=']

namespace QueryItem

theorem toList_text (q : QueryItem) : q.text.toList =
    (escape q.name).toList ++ q.value.elim [] fun v => '=' :: (escape v).toList := by
  unfold text
  cases q.value <;> simp

theorem isEncoded_text (q : QueryItem) : IsEncoded ['='] q.text.toList := by
  have hescape : ∀ s, IsEncoded ['='] (escape s).toList := fun s =>
    (Text.Percent.isEncoded_escape s).mono (List.nil_subset _)
  rw [toList_text]
  refine (hescape q.name).append ?_
  cases q.value with
  | none => exact .nil
  | some v => exact .char (.inr List.mem_cons_self) (hescape v)

theorem not_mem_text (q : QueryItem) : '&' ∉ q.text.toList := fun h =>
  (q.isEncoded_text.of_mem h).elim (by decide) (by decide)

theorem splitFirst?_text (q : QueryItem) : Text.splitFirst? (· == '=') q.text.toList =
    q.value.map fun v => ((escape q.name).toList, (escape v).toList) := by
  have hname : '=' ∉ (escape q.name).toList := Text.Percent.not_mem_escape q.name (by decide)
  rw [toList_text]
  cases q.value with
  | none =>
    rw [Option.elim_none, List.append_nil]
    exact Text.splitFirst?_beq_eq_none_iff.2 hname
  | some v => exact Text.splitFirst?_beq_append hname

theorem text_injective {q q' : QueryItem} (h : q.text = q'.text) : q = q' := by
  obtain ⟨name, value⟩ := q
  obtain ⟨name', value'⟩ := q'
  have hsplit := splitFirst?_text ⟨name, value⟩
  rw [h, splitFirst?_text] at hsplit
  cases value with
  | none =>
    cases value' with
    | none =>
      obtain rfl : name = name' := Text.Percent.escape_injective h
      rfl
    | some v' => simp at hsplit
  | some v =>
    cases value' with
    | none => simp at hsplit
    | some v' =>
      obtain ⟨hname, hvalue⟩ := Prod.mk.inj (Option.some.inj hsplit)
      obtain rfl : name' = name := Text.Percent.escape_injective (String.toList_injective hname)
      obtain rfl : v' = v := Text.Percent.escape_injective (String.toList_injective hvalue)
      rfl

end QueryItem

namespace Request

variable {r r' : Request} {q : String}

theorem queryString_eq_none_iff : r.queryString = none ↔ r.query = [] := by
  simp [queryString]

theorem queryString_eq_some (h : r.queryString = some q) : r.query ≠ [] ∧
    q.toList = ['&'].intercalate (r.query.map fun item => item.text.toList) := by
  unfold queryString at h
  split at h
  · cases h
  · rename_i hne
    rw [← Option.some.inj h, String.toList_intercalate, List.map_map]
    exact ⟨by simpa using hne, rfl⟩

theorem splitOn_queryString (h : r.queryString = some q) :
    q.toList.splitOn '&' = r.query.map fun item => item.text.toList := by
  obtain ⟨hne, htext⟩ := queryString_eq_some h
  rw [htext]
  refine List.splitOn_intercalate '&' (fun l hl => ?_) (by simpa using hne)
  obtain ⟨item, -, rfl⟩ := List.mem_map.1 hl
  exact item.not_mem_text

theorem query_eq_of_queryString (h : r.queryString = r'.queryString) : r.query = r'.query := by
  cases hq : r.queryString with
  | none => rw [queryString_eq_none_iff.1 hq, queryString_eq_none_iff.1 (h ▸ hq)]
  | some q =>
    have hinjective : ∀ item item' : QueryItem,
        item.text.toList = item'.text.toList → item = item' :=
      fun _ _ htext => QueryItem.text_injective (String.toList_injective htext)
    refine (List.map_inj_right hinjective).1 ?_
    rw [← splitOn_queryString hq, splitOn_queryString (h ▸ hq)]

theorem isEncoded_intercalate (items : List QueryItem) :
    IsEncoded queryMarks (['&'].intercalate (items.map fun item => item.text.toList)) := by
  have hitem : ∀ item : QueryItem, IsEncoded queryMarks item.text.toList := fun item =>
    item.isEncoded_text.mono (by decide)
  induction items with
  | nil => exact .nil
  | cons item items ih =>
    cases items with
    | nil => simpa using hitem item
    | cons next items =>
      rw [List.map_cons, List.map_cons, List.intercalate_cons_cons, List.append_assoc]
      exact (hitem item).append (.char (.inr (by decide)) ih)

theorem isEncoded_queryString (h : r.queryString = some q) : IsEncoded queryMarks q.toList := by
  rw [(queryString_eq_some h).2]
  exact isEncoded_intercalate r.query

/-- The items can be told from their query string, which needs no further escapes. -/
theorem queryString_unambiguous (r r' : Request) :
    (r.queryString = r'.queryString ↔ r.query = r'.query) ∧
    ∀ q ∈ r.queryString, IsEncoded queryMarks q.toList := by
  refine ⟨⟨query_eq_of_queryString, fun h => ?_⟩, fun q hq => isEncoded_queryString hq⟩
  rw [queryString, queryString, h]

/-- Marks in a name are escaped, and an empty value is not the same as none. -/
theorem queryString_unambiguous_marks :
    let r : Request := { Request.empty with query := [⟨"a&b", some ""⟩, ⟨"", some "é="⟩] }
    let r' : Request := { Request.empty with query := [⟨"a&b", none⟩, ⟨"", some "é="⟩] }
    r.queryString = some "a%26b=&=%C3%A9%3D" ∧ IsEncoded queryMarks "a%26b=&=%C3%A9%3D".toList ∧
      r.queryString ≠ r'.queryString := by
  intro r r'
  have hr : r.queryString = some "a%26b=&=%C3%A9%3D" := by cbv
  obtain ⟨hquery, hencoded⟩ := queryString_unambiguous r r'
  exact ⟨hr, hencoded _ hr, fun h => absurd (hquery.1 h) (by decide)⟩

end Request

end ServiceClient.Http
