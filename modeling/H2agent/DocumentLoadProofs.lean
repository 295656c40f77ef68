import Mathlib.Data.List.Nodup

/-! # Loading documents one after the other

    A store takes documents one at a time and answers each.  A list of documents is
    loaded until one is refused; what came before it stays.

    * `loadEach_stops` — where a refusal changes nothing, the store afterwards is the one
      that the documents before the refused one leave;
    * `loadEach_refill` — where an entry with a new key comes behind the others, the
      documents of entries with different keys refill an empty store. -/

namespace DocumentLoad

variable {σ δ ρ : Type} (single : δ → σ → ρ × σ) (good : ρ → Bool)

/-- Load documents until one is refused: the answers, and the store. -/
def loadEach : List δ → σ → List ρ × σ
  | [], s => ([], s)
  | d :: ds, s =>
      if good (single d s).1 then
        ((single d s).1 :: (loadEach ds (single d s).2).1, (loadEach ds (single d s).2).2)
      else ([(single d s).1], (single d s).2)

/-- A refused document leaves the store alone. -/
def Harmless : Prop := ∀ d s, good (single d s).1 = false → (single d s).2 = s

variable {single good}

theorem loadEach_cons_good {d : δ} {s : σ} (h : good (single d s).1 = true) (ds : List δ) :
    loadEach single good (d :: ds) s
      = ((single d s).1 :: (loadEach single good ds (single d s).2).1,
          (loadEach single good ds (single d s).2).2) := by
  rw [loadEach, if_pos h]

theorem loadEach_cons_bad {d : δ} {s : σ} (h : good (single d s).1 = false) (ds : List δ) :
    loadEach single good (d :: ds) s = ([(single d s).1], (single d s).2) := by
  rw [loadEach, if_neg (by rw [h]; decide)]

/-- **A REFUSED LIST IS ITS BEGINNING**: all documents are taken, or there is a first one
    that is refused, whose answer is the last, and the store is the one before it. -/
theorem loadEach_stops (hharmless : Harmless single good) (ds : List δ) (s : σ) :
    ((loadEach single good ds s).1.all good = true)
    ∨ ∃ taken d rest, ds = taken ++ d :: rest
      ∧ (loadEach single good taken s).1.all good = true
      ∧ (loadEach single good ds s).2 = (loadEach single good taken s).2
      ∧ good (single d (loadEach single good taken s).2).1 = false
      ∧ (loadEach single good ds s).1 = (loadEach single good taken s).1
          ++ [(single d (loadEach single good taken s).2).1] := by
  induction ds generalizing s with
  | nil => exact Or.inl rfl
  | cons d ds ih =>
      cases hgood : good (single d s).1 with
      | false =>
          refine Or.inr ⟨[], d, ds, rfl, rfl, ?_, hgood, ?_⟩
          · rw [loadEach_cons_bad hgood]
            exact hharmless d s hgood
          · rw [loadEach_cons_bad hgood]
            rfl
      | true =>
          rw [loadEach_cons_good hgood]
          rcases ih (single d s).2 with hall | ⟨taken, d', rest, rfl, hall, hstore, hbad, hlast⟩
          · left
            rw [List.all_cons, hgood, hall]
            rfl
          · right
            refine ⟨d :: taken, d', rest, rfl, ?_⟩
            rw [loadEach_cons_good hgood]
            refine ⟨?_, hstore, hbad, ?_⟩
            · rw [List.all_cons, hgood, hall]
              rfl
            · rw [hlast]
              rfl

/-- The store that a list leaves is the one that a beginning of it leaves, all of which is
    taken. -/
theorem loadEach_beginning (hharmless : Harmless single good) (ds : List δ) (s : σ) :
    ∃ taken, (loadEach single good taken s).1.all good = true
      ∧ (loadEach single good taken s).2 = (loadEach single good ds s).2 := by
  rcases loadEach_stops hharmless ds s with hall | ⟨taken, d, rest, -, hall, hstore, -⟩
  · exact ⟨ds, hall, rfl⟩
  · exact ⟨taken, hall, hstore.symm⟩

/-! ## Refilling a store -/

section Refill

variable {κ ε : Type} {I : σ → Prop} {key : ε → κ} {view : σ → List ε} {accept : δ → Option ε}

/-- An accepted document is answered well, and an entry with a new key comes behind the
    others. -/
def Appends (I : σ → Prop) (single : δ → σ → ρ × σ) (good : ρ → Bool) (key : ε → κ)
    (view : σ → List ε) (accept : δ → Option ε) : Prop :=
  ∀ d s e, I s → accept d = some e →
    I (single d s).2 ∧ good (single d s).1 = true
      ∧ (key e ∉ (view s).map key → view (single d s).2 = view s ++ [e])

/-- Entries with keys of their own come behind those that are there. -/
theorem loadEach_refill (happends : Appends I single good key view accept) (docs : List δ)
    (entries : List ε) (haccept : docs.map accept = entries.map some) (s : σ) (hs : I s)
    (hnodup : ((view s).map key ++ entries.map key).Nodup) :
    (loadEach single good docs s).1.all good = true
      ∧ I (loadEach single good docs s).2
      ∧ view (loadEach single good docs s).2 = view s ++ entries := by
  induction docs generalizing entries s with
  | nil =>
      cases entries with
      | nil => exact ⟨rfl, hs, (List.append_nil _).symm⟩
      | cons e entries => cases haccept
  | cons d docs ih =>
      cases entries with
      | nil => cases haccept
      | cons e entries =>
          rw [List.map_cons, List.map_cons, List.cons.injEq] at haccept
          obtain ⟨hI, hgood, hview⟩ := happends d s e hs haccept.1
          have hnew : key e ∉ (view s).map key := by
            intro hmem
            rw [List.map_cons] at hnodup
            exact (List.nodup_append.mp hnodup).2.2 _ hmem _ List.mem_cons_self rfl
          have hnext : ((view (single d s).2).map key ++ entries.map key).Nodup := by
            rw [hview hnew, List.map_append, List.append_assoc]
            exact hnodup
          obtain ⟨hall, hI', hrest⟩ := ih entries haccept.2 (single d s).2 hI hnext
          rw [loadEach_cons_good hgood]
          refine ⟨?_, hI', ?_⟩
          · rw [List.all_cons, hgood, hall]
            rfl
          · rw [hrest, hview hnew, List.append_assoc]
            rfl

end Refill

end DocumentLoad
