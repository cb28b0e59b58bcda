import AlphaTrader.Proof.BookRepresents

/-!
# The mode of a book and its top

Whatever the state of its lists, the snapshot flag of a book is the last of the two markers that it has
seen, and its cached top is the top of its levels.
-/

namespace AlphaTrader

namespace MarketOrderBook

variable {π : Type} {book book' book'' : MarketOrderBook π}

/-! ### Operations that leave the mode -/

theorem SameMode.refl (book : MarketOrderBook π) : SameMode book book := ⟨rfl, rfl⟩

theorem SameMode.trans (h : SameMode book book') (h' : SameMode book' book'') : SameMode book book'' :=
  ⟨h'.tickerId.trans h.tickerId, h'.inSnapshot.trans h.inSnapshot⟩

theorem Rewired.sameMode (h : Rewired book book') : SameMode book book' := ⟨h.tickerId, h.inSnapshot⟩

section Levels

variable {ptr : LevelPtr} {order : Addr} {f : PriceLevel → PriceLevel}

theorem sameMode_modifyLevel (hmodify : book.modifyLevel ptr f = some book') : SameMode book book' := by
  obtain ⟨level, -, heq⟩ := Option.bind_eq_some_iff.mp hmodify
  obtain rfl := Option.some.inj heq
  exact (Rewired.setLevel ..).sameMode

theorem sameMode_linkOrder (hlink : book.linkOrder ptr order = some book') : SameMode book book' := by
  obtain ⟨level, -, hlink⟩ := Option.bind_eq_some_iff.mp hlink
  cases hhead : level.head with
  | none =>
      simp only [hhead] at hlink
      obtain ⟨linked, hlinked, hmodify⟩ := Option.bind_eq_some_iff.mp hlink
      exact (sameMode_modifyLevel hlinked).trans (sameMode_modifyLevel hmodify)
  | some head =>
      simp only [hhead] at hlink
      obtain ⟨tail, -, hlink⟩ := Option.bind_eq_some_iff.mp hlink
      obtain ⟨linked, hlinked, hmodify⟩ := Option.bind_eq_some_iff.mp hlink
      have hpointers := (sameMode_modifyLevel hlinked).trans (sameMode_modifyLevel hmodify)
      exact ⟨hpointers.tickerId, hpointers.inSnapshot⟩

theorem sameMode_unlinkNext (hunlink : book.unlinkNext ptr order = some book') : SameMode book book' := by
  unfold unlinkNext at hunlink
  split at hunlink
  · obtain rfl := Option.some.inj hunlink
    exact ⟨rfl, rfl⟩
  · exact sameMode_modifyLevel hunlink

theorem sameMode_unlinkPrev (hunlink : book.unlinkPrev ptr order = some book') : SameMode book book' := by
  unfold unlinkPrev at hunlink
  split at hunlink
  · obtain rfl := Option.some.inj hunlink
    exact ⟨rfl, rfl⟩
  · exact sameMode_modifyLevel hunlink

theorem sameMode_unlinkOrder (hunlink : book.unlinkOrder ptr order = some book') : SameMode book book' := by
  obtain ⟨skipped, hnext, hunlink⟩ := Option.bind_eq_some_iff.mp hunlink
  obtain ⟨unlinked, hprev, hmodify⟩ := Option.bind_eq_some_iff.mp hunlink
  exact ((sameMode_unlinkNext hnext).trans (sameMode_unlinkPrev hprev)).trans (sameMode_modifyLevel hmodify)

theorem sameMode_eraseIfEmpty {side : Side} (herase : book.eraseIfEmpty side ptr = some book') :
    SameMode book book' := by
  obtain ⟨level, -, herase⟩ := Option.bind_eq_some_iff.mp herase
  split at herase
  · obtain rfl := Option.some.inj herase
    exact (Rewired.eraseLevel ..).sameMode
  · obtain rfl := Option.some.inj herase
    exact .refl book

end Levels

/-! ### Operations that report a change -/

variable {update : MarketUpdate} {result : Bool × MarketOrderBook π}

/-- An operation leaves the mode, and leaves everything if it reports no change. -/
structure Reports (book : MarketOrderBook π) (result : Bool × MarketOrderBook π) : Prop where
  mode : SameMode book result.2
  idle : result.1 = false → result.2 = book

theorem reports_idle (book : MarketOrderBook π) : Reports book (false, book) := ⟨.refl book, fun _ => rfl⟩

theorem SameMode.reports (hmode : SameMode book book') : Reports book (true, book') := ⟨hmode, nofun⟩

/-- The cached top is the top of the levels. -/
def Topped (book : MarketOrderBook π) : Prop := book.updateBBO = book

theorem Topped.withFlag (htopped : book.Topped) (flag : Bool) :
    ({ book with inSnapshot := flag } : MarketOrderBook π).Topped := by
  have hflag := congrArg (fun b : MarketOrderBook π => { b with inSnapshot := flag }) htopped
  exact hflag

theorem topped_updateBBO (book : MarketOrderBook π) : book.updateBBO.Topped := rfl

variable [ObjectPool π]

theorem reports_eraseOrder {ref : OrderId} (herase : book.eraseOrder ref = some result) :
    Reports book result := by
  unfold eraseOrder at herase
  split at herase
  · obtain rfl := Option.some.inj herase
    exact reports_idle book
  · obtain ⟨unlinked, hunlink, herase⟩ := Option.bind_eq_some_iff.mp herase
    obtain ⟨erased, hempty, herase⟩ := Option.bind_eq_some_iff.mp herase
    obtain rfl := Option.some.inj herase
    have hmode := sameMode_eraseIfEmpty hempty
    exact SameMode.reports ⟨hmode.tickerId.trans (sameMode_unlinkOrder hunlink).tickerId,
      hmode.inSnapshot.trans (sameMode_unlinkOrder hunlink).inSnapshot⟩

theorem reports_reduceOrder (hreduce : book.reduceOrder update = some result) : Reports book result := by
  unfold reduceOrder at hreduce
  split at hreduce
  · obtain rfl := Option.some.inj hreduce
    exact reports_idle book
  · split at hreduce
    · exact reports_eraseOrder hreduce
    · obtain ⟨reduced, hmodify, hreduce⟩ := Option.bind_eq_some_iff.mp hreduce
      obtain rfl := Option.some.inj hreduce
      have hmode := sameMode_modifyLevel hmodify
      exact SameMode.reports ⟨hmode.tickerId, hmode.inSnapshot⟩

omit [ObjectPool π] in
theorem reports_replaceOrder (hreplace : book.replaceOrder update = some result) :
    Reports book result := by
  unfold replaceOrder at hreplace
  split at hreplace
  · obtain rfl := Option.some.inj hreplace
    exact reports_idle book
  · split at hreplace
    · obtain rfl := Option.some.inj hreplace
      exact reports_idle book
    · obtain ⟨unlinked, hunlink, hreplace⟩ := Option.bind_eq_some_iff.mp hreplace
      obtain ⟨erased, hempty, hreplace⟩ := Option.bind_eq_some_iff.mp hreplace
      obtain ⟨linked, hlink, hreplace⟩ := Option.bind_eq_some_iff.mp hreplace
      obtain rfl := Option.some.inj hreplace
      have hdetached := (sameMode_unlinkOrder hunlink).trans (sameMode_eraseIfEmpty hempty)
      have hlevel := (Rewired.getOrCreateLevel erased update.side update.price).sameMode
      have hlinked := sameMode_linkOrder hlink
      have hmode := (hdetached.trans hlevel).trans ⟨hlinked.tickerId, hlinked.inSnapshot⟩
      exact SameMode.reports ⟨hmode.tickerId, hmode.inSnapshot⟩

theorem sameMode_addOrder (hadd : book.addOrder update = some book') : SameMode book book' := by
  obtain ⟨linked, hlink, hadd⟩ := Option.bind_eq_some_iff.mp hadd
  obtain rfl := Option.some.inj hadd
  have hlevel := (Rewired.getOrCreateLevel book update.side update.price).sameMode
  have hlinked := sameMode_linkOrder hlink
  have hmode := hlevel.trans ⟨hlinked.tickerId, hlinked.inSnapshot⟩
  exact ⟨hmode.tickerId, hmode.inSnapshot⟩

/-! ### Updates -/

/-- The flag after an update. -/
def flagAfter (type : UpdateType) (inSnapshot : Bool) : Bool :=
  match type with
  | .snapshotStart => true
  | .snapshotEnd => false
  | _ => inSnapshot

omit [ObjectPool π] in
theorem Reports.refresh (hreports : Reports book result) (htopped : book.Topped) :
    SameMode book (refresh result) ∧ (MarketOrderBook.refresh result).Topped := by
  rw [MarketOrderBook.refresh]
  split
  · exact ⟨⟨hreports.mode.tickerId, hreports.mode.inSnapshot⟩, topped_updateBBO _⟩
  · rename_i hidle
    rw [hreports.idle (by simpa using hidle)]
    exact ⟨.refl book, htopped⟩

theorem clear_spec {fuel : Nat} (hclear : book.clear fuel = some book') :
    SameMode book book' ∧ book'.Topped := by
  obtain ⟨orders, -, hclear⟩ := Option.bind_eq_some_iff.mp hclear
  obtain rfl := Option.some.inj hclear
  exact ⟨⟨rfl, rfl⟩, rfl⟩

/-- **An update** sets the flag if it is a marker and leaves it otherwise, and the top stays that of the
levels. -/
theorem applyUpdate_spec {fuel : Nat} (htopped : book.Topped)
    (happly : book.applyUpdate fuel update = some book') :
    book'.inSnapshot = flagAfter update.type book.inSnapshot ∧ book'.Topped := by
  have hkept : SameMode book book' ∧ book'.Topped →
      book'.inSnapshot = book.inSnapshot ∧ book'.Topped := fun h => ⟨h.1.inSnapshot, h.2⟩
  have hsame : some book = some book' → SameMode book book' ∧ book'.Topped := by
    rintro ⟨⟩
    exact ⟨.refl book, htopped⟩
  have hreported : ∀ operation : Option (Bool × MarketOrderBook π),
      (∀ result, operation = some result → Reports book result) →
      (operation.bind fun result => some (refresh result)) = some book' →
      SameMode book book' ∧ book'.Topped := by
    intro operation hreports hrefresh
    obtain ⟨result, hresult, heq⟩ := Option.bind_eq_some_iff.mp hrefresh
    obtain rfl := Option.some.inj heq
    exact (hreports result hresult).refresh htopped
  unfold applyUpdate at happly
  cases htype : update.type <;> simp only [htype] at happly <;> simp only [flagAfter]
  case snapshotStart =>
      obtain ⟨cleared, hclear, heq⟩ := Option.bind_eq_some_iff.mp happly
      obtain rfl := Option.some.inj heq
      exact ⟨rfl, (clear_spec hclear).2.withFlag true⟩
  case snapshotClear =>
      apply hkept
      split at happly
      · exact clear_spec happly
      · exact hsame happly
  case snapshotEnd =>
      obtain rfl := Option.some.inj happly
      exact ⟨rfl, topped_updateBBO _⟩
  -- the other updates are for the ticker of the book alone
  all_goals
    apply hkept
    split at happly
    · exact hsame happly
  case add | addMpid =>
      split at happly
      · exact hsame happly
      · obtain ⟨added, hadd, heq⟩ := Option.bind_eq_some_iff.mp happly
        obtain rfl := Option.some.inj heq
        have hmode := sameMode_addOrder hadd
        exact ⟨⟨hmode.tickerId, hmode.inSnapshot⟩, topped_updateBBO _⟩
  case execute | cancel => exact hreported _ (fun _ => reports_reduceOrder) happly
  case delete => exact hreported _ (fun _ => reports_eraseOrder) happly
  case replace => exact hreported _ (fun _ => reports_replaceOrder) happly

end MarketOrderBook

end AlphaTrader
