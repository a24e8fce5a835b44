import StellarGate.Api.Cursor
import StellarGate.Boot.Settings
import StellarGate.Money.Grammar
import StellarGate.Strkey.Typing

/-! What the lists among the settings of `src/config.rs` can say, and how it is written. -/
namespace StellarGate
open Base

section
variable {α β : Type} {ε ε' : Type}

theorem bind_eq_ok_iff {x : Except ε α} {f : α → Except ε β} {b : β} :
    x >>= f = .ok b ↔ ∃ a, x = .ok a ∧ f a = .ok b := by
  cases x with
  | error e => exact iff_of_false (fun h => by cases h) fun ⟨a, h, _⟩ => by cases h
  | ok a =>
    constructor
    · intro h
      exact ⟨a, rfl, h⟩
    · rintro ⟨_, h, hf⟩
      cases h
      exact hf

theorem mapError_eq_ok_iff {x : Except ε α} {f : ε → ε'} {a : α} :
    x.mapError f = .ok a ↔ x = .ok a := by
  cases x with
  | error e => exact iff_of_false (fun h => by cases h) fun h => by cases h
  | ok b =>
    constructor
    · intro h
      cases h
      rfl
    · intro h
      cases h
      rfl

theorem mapM_eq_ok_iff {f : α → Except ε β} {xs : List α} {ys : List β} :
    xs.mapM f = .ok ys ↔ List.Forall₂ (fun x y => f x = .ok y) xs ys := by
  induction xs generalizing ys with
  | nil =>
    rw [List.mapM_nil, List.forall₂_nil_left_iff]
    constructor
    · intro h
      cases h
      rfl
    · rintro rfl
      rfl
  | cons x xs ih =>
    rw [List.mapM_cons, bind_eq_ok_iff]
    simp only [bind_eq_ok_iff, ih]
    constructor
    · rintro ⟨y, hy, ys', hys, h⟩
      cases h
      exact .cons hy hys
    · intro h
      cases h with
      | cons hy hys => exact ⟨_, hy, _, hys, rfl⟩

theorem exists_mem_of_forall₂ {R : α → β → Prop} {xs : List α} {ys : List β}
    (h : List.Forall₂ R xs ys) {y : β} (hy : y ∈ ys) : ∃ x ∈ xs, R x y := by
  induction h with
  | nil => cases hy
  | cons hxy _ ih =>
    rcases List.mem_cons.mp hy with rfl | hy
    · exact ⟨_, List.mem_cons_self, hxy⟩
    · obtain ⟨x, hx, hr⟩ := ih hy
      exact ⟨x, List.mem_cons_of_mem _ hx, hr⟩

end

namespace Boot

def NulFree (text : String) : Prop := Char.ofNat 0 ∉ text.toList

instance (text : String) : Decidable (NulFree text) := inferInstanceAs (Decidable (¬ _))

/-- What can stand between two commas of a list. -/
structure IsEntry (entry : String) : Prop where
  something : entry ≠ ""
  whole : ',' ∉ entry.toList
  trimmed : trim entry.toList = entry.toList
  nulFree : NulFree entry

section
variable {cs ds : List Char} {es : List String} {raw : String}

theorem head_dropWhile {p : Char → Bool} (cs : List Char) :
    ∀ c ∈ (cs.dropWhile p).head?, p c = false := by
  intro c hc
  have hhead := List.head?_dropWhile_not p cs
  rw [show (cs.dropWhile p).head? = some c from hc] at hhead
  simpa using hhead

theorem trim_ends (cs : List Char) :
    (∀ c ∈ (trim cs).head?, isWhitespace c = false) ∧ ∀ c ∈ (trim cs).getLast?,
    isWhitespace c = false := by
  have hprefix : trim cs <+: cs.dropWhile isWhitespace := by
    unfold trim
    have hsuffix := List.dropWhile_suffix isWhitespace (l := (cs.dropWhile isWhitespace).reverse)
    rwa [← List.reverse_prefix, List.reverse_reverse] at hsuffix
  constructor
  · intro c hc
    apply head_dropWhile cs c
    obtain ⟨rest, hrest⟩ := hprefix
    rw [← hrest, List.head?_append, show (trim cs).head? = some c from hc]
    rfl
  · intro c hc
    unfold trim at hc
    rw [List.getLast?_reverse] at hc
    exact head_dropWhile _ c hc

theorem trim_eq_self_iff : trim cs = cs ↔
    (∀ c ∈ cs.head?, isWhitespace c = false) ∧ ∀ c ∈ cs.getLast?, isWhitespace c = false := by
  constructor
  · intro h
    have hends := trim_ends cs
    rwa [h] at hends
  · rintro ⟨hhead, hlast⟩
    exact trim_eq_self_of_ends hhead hlast

theorem trim_trim (cs : List Char) : trim (trim cs) = trim cs := trim_eq_self_iff.mpr (trim_ends cs)

theorem mem_of_mem_trim {c : Char} (h : c ∈ trim cs) : c ∈ cs := by
  obtain ⟨before, after, hcs, -⟩ := append_trim_append cs
  rw [hcs]
  exact List.mem_append_left _ (List.mem_append_right _ h)

theorem not_mem_of_mem_splitOn {sep : Char} {piece : List Char} (h : piece ∈ cs.splitOn sep) :
    sep ∉ piece := by
  induction cs generalizing piece with
  | nil =>
    rw [List.splitOn_nil, List.mem_singleton] at h
    exact h ▸ List.not_mem_nil
  | cons c cs ih =>
    rw [List.splitOn_cons_eq_if_modifyHead] at h
    split_ifs at h with hc
    · rcases List.mem_cons.mp h with rfl | h
      · exact List.not_mem_nil
      · exact ih h
    · cases hs : cs.splitOn sep with
      | nil => exact absurd hs (List.splitOn_ne_nil sep cs)
      | cons first rest =>
        rw [hs, List.modifyHead_cons, List.mem_cons] at h
        rcases h with rfl | h
        · have hfirst := ih (hs ▸ List.mem_cons_self)
          exact List.not_mem_cons_of_ne_of_not_mem (fun heq => hc (beq_iff_eq.mpr heq.symm)) hfirst
        · exact ih (hs ▸ List.mem_cons_of_mem first h)

theorem mem_of_mem_splitOn {sep c : Char} {piece : List Char} (h : piece ∈ cs.splitOn sep)
    (hc : c ∈ piece) : c ∈ cs := by
  induction cs generalizing piece with
  | nil =>
    rw [List.splitOn_nil, List.mem_singleton] at h
    exact h ▸ hc
  | cons d cs ih =>
    rw [List.splitOn_cons_eq_if_modifyHead] at h
    split_ifs at h with hd
    · rcases List.mem_cons.mp h with rfl | h
      · exact absurd hc List.not_mem_nil
      · exact List.mem_cons_of_mem d (ih h hc)
    · cases hs : cs.splitOn sep with
      | nil => exact absurd hs (List.splitOn_ne_nil sep cs)
      | cons first rest =>
        rw [hs, List.modifyHead_cons, List.mem_cons] at h
        rcases h with rfl | h
        · rcases List.mem_cons.mp hc with rfl | hc
          · exact List.mem_cons_self
          · exact List.mem_cons_of_mem d (ih (hs ▸ List.mem_cons_self) hc)
        · exact List.mem_cons_of_mem d (ih (hs ▸ List.mem_cons_of_mem first h) hc)

theorem isEntry_of_mem {e : String} (hraw : NulFree raw) (h : e ∈ entries raw) : IsEntry e := by
  unfold entries at h
  obtain ⟨cs, hcs, rfl⟩ := List.mem_map.mp h
  obtain ⟨hin, hne⟩ := List.mem_filter.mp hcs
  obtain ⟨piece, hpiece, rfl⟩ := List.mem_map.mp hin
  have hlist : (String.ofList (trim piece)).toList = trim piece := String.toList_ofList
  constructor
  · intro hempty
    have hnil := congrArg String.toList hempty
    rw [hlist] at hnil
    exact absurd hnil (of_decide_eq_true hne)
  · rw [hlist]
    exact fun hcomma => not_mem_of_mem_splitOn hpiece (mem_of_mem_trim hcomma)
  · rw [hlist]
    exact trim_trim piece
  · unfold NulFree
    rw [hlist]
    exact fun hnul => hraw (mem_of_mem_splitOn hpiece (mem_of_mem_trim hnul))

/-- A list, written down. -/
def written (es : List String) : String := ",".intercalate es

theorem toList_written (es : List String) :
    (written es).toList = [','].intercalate (es.map String.toList) :=
  String.toList_intercalate

theorem entries_written (h : ∀ e ∈ es, IsEntry e) : entries (written es) = es := by
  unfold entries
  rw [toList_written]
  cases hes : es with
  | nil => rfl
  | cons e es' =>
    rw [← hes, List.splitOn_intercalate]
    · have htrim : (es.map String.toList).map trim = es.map String.toList := by
        rw [List.map_map]
        exact List.map_congr_left fun e he => (h e he).trimmed
      have hsome : (es.map String.toList).filter (· ≠ []) = es.map String.toList := by
        apply List.filter_eq_self.mpr
        intro cs hcs
        obtain ⟨e, he, rfl⟩ := List.mem_map.mp hcs
        exact decide_eq_true fun hnil => (h e he).something (String.toList_inj.mp hnil)
      rw [htrim, hsome, List.map_map]
      exact (List.map_congr_left fun e _ => String.ofList_toList).trans (List.map_id es)
    · intro cs hcs
      obtain ⟨e, he, rfl⟩ := List.mem_map.mp hcs
      exact (h e he).whole
    · rw [hes]
      exact List.cons_ne_nil _ _

theorem nulFree_written (h : ∀ e ∈ es, NulFree e) : NulFree (written es) := by
  unfold NulFree
  rw [toList_written]
  induction es with
  | nil => exact List.not_mem_nil
  | cons e es ih =>
    obtain ⟨hfirst, hrest⟩ := List.forall_mem_cons.mp h
    cases es with
    | nil =>
      rw [List.map_cons, List.map_nil, List.intercalate_singleton]
      exact hfirst
    | cons e' es =>
      rw [List.map_cons, List.map_cons, List.intercalate_cons_cons, List.mem_append,
        List.mem_append]
      rintro ((hnul | hnul) | hnul)
      · exact hfirst hnul
      · exact absurd (List.mem_singleton.mp hnul) (by decide)
      · exact ih hrest hnul

/-- Whatever single entries can say, a list of them can. -/
theorem exists_written {γ : Type} {f : String → γ} {xs : List γ}
    (h : ∀ x ∈ xs, ∃ e, IsEntry e ∧ f e = x) :
    ∃ es : List String, (∀ e ∈ es, IsEntry e) ∧ es.map f = xs := by
  induction xs with
  | nil => exact ⟨[], fun e he => (by cases he), rfl⟩
  | cons x xs ih =>
    obtain ⟨e, he, hx⟩ := h x List.mem_cons_self
    obtain ⟨es, hes, hxs⟩ := ih fun y hy => h y (List.mem_cons_of_mem x hy)
    refine ⟨e :: es, List.forall_mem_cons.mpr ⟨he, hes⟩, ?_⟩
    rw [List.map_cons, hx, hxs]

end

/-- What can stand before the issuer of an asset. -/
structure IsCode (code : String) : Prop where
  whole : ',' ∉ code.toList
  first : ':' ∉ code.toList
  trimmed : trim code.toList = code.toList
  nulFree : NulFree code

def readAsset (toUppercase : String → String) (entry : String) : AcceptedAsset :=
  ⟨toUppercase (splitEntry entry.toList).1, (splitEntry entry.toList).2⟩

def assetEntry (code : String) : Option String → String
  | none => code
  | some issuer => code ++ ":" ++ issuer

section
variable {toUppercase : String → String} {raw entry code issuer : String} {asset : AcceptedAsset}

theorem parseList_eq (toUppercase : String → String) (raw : String) :
    AcceptedAsset.parseList toUppercase raw = (entries raw).map (readAsset toUppercase) := by
  unfold AcceptedAsset.parseList listEntries entries
  rw [List.map_map, List.map_map]
  refine List.map_congr_left fun cs _ => ?_
  simp only [Function.comp_apply, readAsset, String.toList_ofList]

theorem isCode_of_entry (h : IsEntry entry) :
    ∃ code, IsCode code ∧ toUppercase code = (readAsset toUppercase entry).code := by
  unfold readAsset splitEntry
  cases hsplit : splitOnce ':' entry.toList with
  | none =>
    refine ⟨String.ofList (trim entry.toList), ?_, rfl⟩
    rw [h.trimmed, String.ofList_toList]
    refine ⟨h.whole, fun hcolon => ?_, h.trimmed, h.nulFree⟩
    obtain ⟨a, b, heq, hfree⟩ := List.eq_append_cons_of_mem hcolon
    rw [heq, Money.splitOnce_append hfree] at hsplit
    cases hsplit
  | some parts =>
    obtain ⟨a, b⟩ := parts
    obtain ⟨heq, hfree⟩ := splitOnce_eq_some_iff.mp hsplit
    refine ⟨String.ofList (trim a), ?_, rfl⟩
    have hlist : (String.ofList (trim a)).toList = trim a := String.toList_ofList
    constructor
    · rw [hlist]
      intro hcomma
      apply h.whole
      rw [heq]
      exact List.mem_append_left _ (mem_of_mem_trim hcomma)
    · rw [hlist]
      exact fun hcolon => hfree (mem_of_mem_trim hcolon)
    · rw [hlist]
      exact trim_trim a
    · unfold NulFree
      rw [hlist]
      intro hnul
      apply h.nulFree
      rw [heq]
      exact List.mem_append_left _ (mem_of_mem_trim hnul)

theorem readAsset_assetEntry (hcode : IsCode code)
    (hissuer : ∀ i ∈ asset.issuer, trim i.toList = i.toList)
    (hupper : toUppercase code = asset.code) :
    readAsset toUppercase (assetEntry code asset.issuer) = asset := by
  obtain ⟨upper, issuer⟩ := asset
  unfold readAsset splitEntry assetEntry
  cases issuer with
  | none =>
    rw [Money.splitOnce_eq_none hcode.first]
    simp only [hcode.trimmed, String.ofList_toList]
    rw [hupper]
  | some issuer =>
    have htext : (code ++ ":" ++ issuer).toList = code.toList ++ ':' :: issuer.toList := by
      rw [String.toList_append, String.toList_append, List.append_assoc]
      rfl
    simp only [htext, Money.splitOnce_append hcode.first, hcode.trimmed, hissuer issuer rfl,
      String.ofList_toList]
    rw [hupper]

/-- The entry of an asset can stand in a list. -/
theorem isEntry_assetEntry (hcode : IsCode code)
    (hissuer : ∀ i ∈ asset.issuer, ',' ∉ i.toList ∧ trim i.toList = i.toList ∧ NulFree i)
    (hnative : asset.issuer = none → code ≠ "") : IsEntry (assetEntry code asset.issuer) := by
  obtain ⟨upper, issuer⟩ := asset
  cases issuer with
  | none => exact ⟨hnative rfl, hcode.whole, hcode.trimmed, hcode.nulFree⟩
  | some issuer =>
    obtain ⟨hcomma, htrim, hnul⟩ := hissuer issuer rfl
    have htext : (code ++ ":" ++ issuer).toList = code.toList ++ ':' :: issuer.toList := by
      rw [String.toList_append, String.toList_append, List.append_assoc]
      rfl
    unfold assetEntry
    constructor
    · intro hempty
      have hnil := congrArg String.toList hempty
      rw [htext] at hnil
      exact absurd hnil (List.append_ne_nil_of_right_ne_nil _ (List.cons_ne_nil _ _))
    · rw [htext, List.mem_append, List.mem_cons, not_or, not_or]
      exact ⟨hcode.whole, by decide, hcomma⟩
    · rw [htext, trim_eq_self_iff]
      constructor
      · intro c hc
        rw [List.head?_append] at hc
        cases hhead : code.toList.head? with
        | none =>
          rw [hhead] at hc
          cases hc
          decide
        | some d =>
          rw [hhead] at hc
          cases hc
          exact (trim_eq_self_iff.mp hcode.trimmed).1 _ hhead
      · intro c hc
        rw [List.getLast?_append, List.getLast?_cons] at hc
        cases hlast : issuer.toList.getLast? with
        | none =>
          rw [hlast] at hc
          cases hc
          decide
        | some d =>
          rw [hlast] at hc
          cases hc
          exact (trim_eq_self_iff.mp htrim).2 _ hlast
    · unfold NulFree
      rw [htext, List.mem_append, List.mem_cons, not_or, not_or]
      exact ⟨hcode.nulFree, by decide, hnul⟩

end

end Boot
end StellarGate
