import AlphaTrader.Library.Run
import AlphaTrader.Proof.RiskSpec

/-!
# Positions against the executions behind them

A ledger keeps what the accepted executions of a ticker amount to: the signed quantity, the cash that
changed hands, and the prices at which the open position was built. The tracker keeps an average entry
price and a realised result in their place. The average is a division that truncates, so the realised
result may be off; it is off by less than a unit per share and division.
-/

namespace AlphaTrader

/-! ### Truncated averages -/

/-- A truncated quotient misses the dividend by less than the divisor. -/
theorem abs_sub_mul_tdiv_le (a : Int) {b : Int} (hb : 0 < b) : |a - b * a.tdiv b| ≤ b - 1 := by
  have hsplit := Int.mul_tdiv_add_tmod a b
  have hlt := Int.tmod_lt_of_pos a hb
  have hgt := Int.lt_tmod_of_pos a hb
  rw [abs_le]
  constructor <;> omega

theorem le_tdiv_of_mul_le {a b c : Int} (hb : 0 < b) (hle : c * b ≤ a) : c ≤ a.tdiv b := by
  have hmono := Int.tdiv_le_tdiv hb hle
  rwa [Int.mul_tdiv_cancel c (by omega)] at hmono

theorem tdiv_le_of_le_mul {a b c : Int} (hb : 0 < b) (hle : a ≤ c * b) : a.tdiv b ≤ c := by
  have hmono := Int.tdiv_le_tdiv hb hle
  rwa [Int.mul_tdiv_cancel c (by omega)] at hmono

/-- A truncated weighted average lies between the two prices. -/
theorem average_mem {x y lo hi : Int} {m n : Nat} (hn : 0 < n) (hx : lo ≤ x ∧ x ≤ hi)
    (hy : lo ≤ y ∧ y ≤ hi) :
    lo ≤ (x * m + y * n).tdiv (m + n) ∧ (x * m + y * n).tdiv (m + n) ≤ hi := by
  have hpos : (0 : Int) < m + n := by omega
  constructor
  · apply le_tdiv_of_mul_le hpos
    calc lo * (m + n) = lo * m + lo * n := by ring
      _ ≤ x * m + y * n := by gcongr; exacts [hx.1, hy.1]
  · apply tdiv_le_of_le_mul hpos
    calc x * m + y * n ≤ hi * m + hi * n := by gcongr; exacts [hx.2, hy.2]
      _ = hi * (m + n) := by ring

namespace PnLTracker

/-- The average entry price of a position after it is enlarged, before it is narrowed to a price. -/
def averageEntry (position : Position) (price : Price) (qty : Quantity) : Int :=
  (position.avgEntryPrice.toInt * position.netQty.natAbs + price.toInt * qty.toNat).tdiv
    (position.netQty.natAbs + qty.toNat)

/-- A position with the mark-to-market result of its average and its mark. -/
def Marked (position : Position) : Prop :=
  position.unrealizedPnl =
    if position.netQty = 0 ∨ position.markPrice = priceInvalid then 0
    else position.netQty * (position.markPrice.toInt - position.avgEntryPrice.toInt)

theorem updateUnrealized_spec {position position' : Position}
    (hupdate : updateUnrealized position = some position') :
    ∃ unrealized, position' = { position with unrealizedPnl := unrealized } ∧ Marked position' := by
  unfold updateUnrealized at hupdate
  split at hupdate
  case isTrue hflat =>
      obtain rfl := Option.some.inj hupdate
      exact ⟨0, rfl, (if_pos hflat).symm⟩
  case isFalse hopen =>
      dsimp only at hupdate
      split at hupdate
      case isTrue =>
          obtain rfl := Option.some.inj hupdate
          exact ⟨_, rfl, (if_neg hopen).symm⟩
      case isFalse => cases hupdate

/-! ### What an execution does to a position -/

/-- The five ways of an execution: the position is opened, enlarged, reduced, closed or flipped. -/
inductive Moves (position : Position) (side : Side) (price : Price) (qty : Quantity) : Position → Prop
  | opened (hflat : position.netQty = 0) :
      Moves position side price qty
        { position with netQty := side.signed qty, avgEntryPrice := price }
  | enlarged (hopen : position.netQty ≠ 0) (hside : 0 < position.netQty ↔ 0 < side.signed qty) :
      Moves position side price qty { position with
        netQty := position.netQty + side.signed qty
        avgEntryPrice := Int32.ofInt (averageEntry position price qty) }
  | reduced (hside : ¬ (0 < position.netQty ↔ 0 < side.signed qty))
      (hleft : position.netQty + side.signed qty ≠ 0)
      (hsame : 0 < position.netQty ↔ 0 < position.netQty + side.signed qty) :
      Moves position side price qty { position with
        realizedPnl := position.realizedPnl
          - side.signed qty * (price.toInt - position.avgEntryPrice.toInt)
        netQty := position.netQty + side.signed qty }
  | closed (hopen : position.netQty ≠ 0) (hleft : position.netQty + side.signed qty = 0) :
      Moves position side price qty { position with
        realizedPnl := position.realizedPnl
          - side.signed qty * (price.toInt - position.avgEntryPrice.toInt)
        netQty := 0
        avgEntryPrice := priceInvalid }
  | flipped (hopen : position.netQty ≠ 0)
      (hleft : position.netQty + side.signed qty ≠ 0)
      (hside : ¬ (0 < position.netQty ↔ 0 < position.netQty + side.signed qty)) :
      Moves position side price qty { position with
        realizedPnl := position.realizedPnl
          + position.netQty * (price.toInt - position.avgEntryPrice.toInt)
        netQty := position.netQty + side.signed qty
        avgEntryPrice := price }

section Moves

variable {position position' : Position} {side : Side} {price : Price} {qty : Quantity}

theorem signed_ne_zero (side : Side) (hqty : qty ≠ 0) : side.signed qty ≠ 0 := by
  have hpos : qty.toNat ≠ 0 := fun hzero => hqty (UInt32.toNat_inj.mp hzero)
  cases side <;> simp only [Side.signed] <;> omega

theorem natAbs_signed (side : Side) (qty : Quantity) : (side.signed qty).natAbs = qty.toNat := by
  cases side <;> simp only [Side.signed] <;> omega

/-- Against the open position, the realised result is that of the quantity closed. -/
theorem realizedOnClose_eq (hqty : qty ≠ 0)
    (hside : ¬ (0 < position.netQty ↔ 0 < side.signed qty)) :
    realizedOnClose position price qty =
      if position.netQty.natAbs < qty.toNat then
        position.realizedPnl + position.netQty * (price.toInt - position.avgEntryPrice.toInt)
      else
        position.realizedPnl - side.signed qty * (price.toInt - position.avgEntryPrice.toInt) := by
  have hsigned := signed_ne_zero side hqty
  have habs := natAbs_signed side qty
  unfold realizedOnClose
  simp only [Nat.cast_lt]
  by_cases hlong : 0 < position.netQty
  · have hshort : ¬ 0 < side.signed qty := fun hbuy => hside (iff_of_true hlong hbuy)
    rw [if_pos hlong]
    split
    · rw [show (position.netQty.natAbs : Int) = position.netQty by omega]
      ring
    · rw [show (qty.toNat : Int) = -side.signed qty by omega]
      ring
  · have hbuy : 0 < side.signed qty := by
      by_contra hsell
      exact hside (iff_of_false hlong hsell)
    rw [if_neg hlong]
    split
    · rw [show (position.netQty.natAbs : Int) = -position.netQty by omega]
      ring
    · rw [show (qty.toNat : Int) = side.signed qty by omega]
      ring

theorem applyExecution_moves (hqty : qty ≠ 0)
    (happly : applyExecution position side price qty = some position') :
    Moves position side price qty position' := by
  have hsigned := signed_ne_zero side hqty
  have habs := natAbs_signed side qty
  have hnet := netQty_applyExecution happly
  simp only [applyExecution, Nat.cast_lt] at happly
  by_cases hflat : position.netQty = 0
  · rw [if_pos hflat] at happly
    obtain rfl := Option.some.inj happly
    exact .opened hflat
  rw [if_neg hflat] at happly
  by_cases hside : 0 < position.netQty ↔ 0 < side.signed qty
  · rw [if_pos hside] at happly
    obtain rfl := Option.some.inj happly
    exact .enlarged hflat hside
  rw [if_neg hside, realizedOnClose_eq hqty hside] at happly
  by_cases hflip : position.netQty.natAbs < qty.toNat
  · simp only [if_pos hflip] at happly
    split at happly
    case isTrue => cases happly
    case isFalse =>
        obtain rfl := Option.some.inj happly
        dsimp only at hnet
        rw [hnet]
        exact .flipped hflat (by omega) (by omega)
  · simp only [if_neg hflip] at happly
    split at happly
    case isTrue => cases happly
    case isFalse =>
        obtain rfl := Option.some.inj happly
        by_cases hleft : position.netQty + side.signed qty = 0
        · rw [if_pos hleft, hleft]
          exact .closed hflat hleft
        · rw [if_neg hleft]
          exact .reduced hside hleft (by omega)

end Moves

/-! ### The ledger -/

/-- What the accepted executions of a ticker amount to. -/
structure Ledger where
  netQty : Int := 0
  cash : Int := 0
  /-- One unit less than the position, for each execution that enlarged it. -/
  slack : Int := 0
  /-- The prices that opened or enlarged the position since it was last flat or flipped. -/
  entryPrices : List Price := []

namespace Ledger

def Enlarged (ledger : Ledger) (side : Side) (qty : Quantity) : Prop :=
  ledger.netQty ≠ 0 ∧ (0 < ledger.netQty ↔ 0 < side.signed qty)

instance (ledger : Ledger) (side : Side) (qty : Quantity) : Decidable (ledger.Enlarged side qty) :=
  inferInstanceAs (Decidable (_ ∧ _))

def book (ledger : Ledger) (side : Side) (price : Price) (qty : Quantity) : Ledger :=
  let netQty := ledger.netQty + side.signed qty
  { netQty := netQty
    cash := ledger.cash - side.signed qty * price.toInt
    slack := ledger.slack + if ledger.Enlarged side qty then netQty.natAbs - 1 else 0
    entryPrices :=
      if netQty = 0 then []
      else if ledger.Enlarged side qty then ledger.entryPrices ++ [price]
      else if ledger.netQty ≠ 0 ∧ (0 < ledger.netQty ↔ 0 < netQty) then ledger.entryPrices
      else [price] }

/-- By how much the realised result misses the cash and the open position at its average. -/
def discrepancy (ledger : Ledger) (position : Position) : Int :=
  position.realizedPnl - (ledger.cash + position.netQty * position.avgEntryPrice.toInt)

end Ledger

/-- The price lies between the smallest and the largest of the prices. -/
def Spanned (prices : List Price) (price : Price) : Prop :=
  (∃ low ∈ prices, low ≤ price) ∧ ∃ high ∈ prices, price ≤ high

theorem Spanned.ne_invalid {prices : List Price} {price : Price} (hspanned : Spanned prices price)
    (hvalid : ∀ entry ∈ prices, entry ≠ priceInvalid) : price ≠ priceInvalid := by
  rintro rfl
  obtain ⟨⟨low, hmem, hle⟩, -⟩ := hspanned
  apply hvalid low hmem
  apply Int32.toInt_inj.mp
  have hge := low.minValue_le_toInt
  rw [Int32.le_iff_toInt_le] at hle
  exact le_antisymm hle hge

/-- The position is what the ledger says, up to the rounding of the average. -/
structure Accounts (ledger : Ledger) (position : Position) : Prop where
  netQty : position.netQty = ledger.netQty
  flat : position.netQty = 0 → position.avgEntryPrice = priceInvalid
  spanned : position.netQty ≠ 0 → Spanned ledger.entryPrices position.avgEntryPrice
  valid : ∀ entry ∈ ledger.entryPrices, entry ≠ priceInvalid
  marked : Marked position
  rounding : |ledger.discrepancy position| ≤ ledger.slack

theorem accounts_fresh : Accounts {} {} where
  netQty := rfl
  flat _ := rfl
  spanned hopen := absurd rfl hopen
  valid := by simp
  marked := rfl
  rounding := le_refl 0

section Step

variable {ledger : Ledger} {position position' : Position} {side : Side} {price : Price}
  {qty : Quantity}

/-- **The average** after an execution that enlarges the position is not cut off, and lies between the
entry prices. -/
theorem averageEntry_spanned {prices : List Price} (price : Price) (hqty : qty ≠ 0)
    (hspanned : Spanned prices position.avgEntryPrice) :
    (Int32.ofInt (averageEntry position price qty)).toInt = averageEntry position price qty
      ∧ Spanned (prices ++ [price]) (Int32.ofInt (averageEntry position price qty)) := by
  obtain ⟨⟨low, hlow, hle⟩, ⟨high, hhigh, hge⟩⟩ := hspanned
  rw [Int32.le_iff_toInt_le] at hle hge
  have hpos : 0 < qty.toNat := by
    apply Nat.pos_of_ne_zero
    exact fun hzero => hqty (UInt32.toNat_inj.mp hzero)
  obtain ⟨low', hlow', hlow₁, hlow₂⟩ : ∃ low' ∈ prices ++ [price],
      low'.toInt ≤ position.avgEntryPrice.toInt ∧ low'.toInt ≤ price.toInt := by
    rcases le_total low.toInt price.toInt with h | h
    · exact ⟨low, by simp [hlow], hle, h⟩
    · exact ⟨price, by simp, h.trans hle, le_rfl⟩
  obtain ⟨high', hhigh', hhigh₁, hhigh₂⟩ : ∃ high' ∈ prices ++ [price],
      position.avgEntryPrice.toInt ≤ high'.toInt ∧ price.toInt ≤ high'.toInt := by
    rcases le_total price.toInt high.toInt with h | h
    · exact ⟨high, by simp [hhigh], hge, h⟩
    · exact ⟨price, by simp, hge.trans h, le_rfl⟩
  obtain ⟨hlower, hupper⟩ := average_mem (m := position.netQty.natAbs) hpos ⟨hlow₁, hhigh₁⟩
    ⟨hlow₂, hhigh₂⟩
  have hexact : (Int32.ofInt (averageEntry position price qty)).toInt =
      averageEntry position price qty := by
    apply Int32.toInt_ofInt_of_le
    · exact low'.le_toInt.trans hlower
    · exact hupper.trans_lt high'.toInt_lt
  refine ⟨hexact, ⟨low', hlow', ?_⟩, ⟨high', hhigh', ?_⟩⟩
  · rw [Int32.le_iff_toInt_le, hexact]
    exact hlower
  · rw [Int32.le_iff_toInt_le, hexact]
    exact hupper

theorem discrepancy_of_not_enlarged (hnet : position.netQty = ledger.netQty)
    (hmoves : Moves position side price qty position') (henlarged : ¬ ledger.Enlarged side qty) :
    (ledger.book side price qty).discrepancy position' = ledger.discrepancy position := by
  cases hmoves with
  | opened hflat =>
      simp only [Ledger.discrepancy, Ledger.book, hflat]
      ring
  | enlarged hopen hside => exact absurd ⟨hnet ▸ hopen, hnet ▸ hside⟩ henlarged
  | reduced hside hleft hsame =>
      simp only [Ledger.discrepancy, Ledger.book]
      ring
  | closed hopen hleft =>
      have hqty : position.netQty = -side.signed qty := by omega
      simp only [Ledger.discrepancy, Ledger.book, hqty]
      ring
  | flipped hopen hleft hside =>
      simp only [Ledger.discrepancy, Ledger.book]
      ring

theorem moves_enlarged (hopen : position.netQty ≠ 0)
    (hside : 0 < position.netQty ↔ 0 < side.signed qty) (hqty : qty ≠ 0)
    (hmoves : Moves position side price qty position') :
    position' = { position with
      netQty := position.netQty + side.signed qty
      avgEntryPrice := Int32.ofInt (averageEntry position price qty) } := by
  have hsigned := signed_ne_zero side hqty
  cases hmoves with
  | opened hflat => exact absurd hflat hopen
  | enlarged => rfl
  | reduced hopposite => exact absurd hside hopposite
  | closed _ hleft => omega
  | flipped _ hleft hopposite => omega

/-- What the truncation of the average adds to the discrepancy. -/
theorem discrepancy_of_enlarged (hnet : position.netQty = ledger.netQty)
    (henlarged : ledger.Enlarged side qty)
    (hspanned : Spanned ledger.entryPrices position.avgEntryPrice) (hqty : qty ≠ 0)
    (hmoves : Moves position side price qty position') :
    |(ledger.book side price qty).discrepancy position' - ledger.discrepancy position| =
      |position.avgEntryPrice.toInt * position.netQty.natAbs + price.toInt * qty.toNat
        - (position.netQty.natAbs + qty.toNat) * averageEntry position price qty| := by
  rw [Ledger.Enlarged, ← hnet] at henlarged
  obtain ⟨hopen, hside⟩ := henlarged
  have habs := natAbs_signed side qty
  obtain rfl := moves_enlarged hopen hside hqty hmoves
  have hexact := (averageEntry_spanned price hqty hspanned).1
  simp only [Ledger.discrepancy, Ledger.book, hexact]
  by_cases hlong : 0 < position.netQty
  · rw [show (position.netQty.natAbs : Int) = position.netQty by omega,
      show (qty.toNat : Int) = side.signed qty by omega]
    congr 1
    ring
  · rw [show (position.netQty.natAbs : Int) = -position.netQty by omega,
      show (qty.toNat : Int) = -side.signed qty by omega, ← abs_neg]
    congr 1
    ring

theorem discrepancy_of_dvd (h : Accounts ledger position) (hqty : qty ≠ 0)
    (hdvd : ledger.Enlarged side qty → (position.netQty.natAbs + qty.toNat : Int) ∣
      position.avgEntryPrice.toInt * position.netQty.natAbs + price.toInt * qty.toNat)
    (hmoves : Moves position side price qty position') :
    (ledger.book side price qty).discrepancy position' = ledger.discrepancy position := by
  by_cases henlarged : ledger.Enlarged side qty
  · have hmiss := discrepancy_of_enlarged h.netQty henlarged (h.spanned (h.netQty ▸ henlarged.1)) hqty
      hmoves
    rw [averageEntry, Int.mul_tdiv_cancel' (hdvd henlarged), sub_self, abs_zero, abs_eq_zero] at hmiss
    exact sub_eq_zero.mp hmiss
  · exact discrepancy_of_not_enlarged h.netQty hmoves henlarged

theorem rounding_of_moves (h : Accounts ledger position) (hqty : qty ≠ 0)
    (hmoves : Moves position side price qty position') :
    |(ledger.book side price qty).discrepancy position'| ≤ (ledger.book side price qty).slack := by
  have hround := h.rounding
  by_cases henlarged : ledger.Enlarged side qty
  · have hopen : position.netQty ≠ 0 := h.netQty ▸ henlarged.1
    have hsame := henlarged.2
    have hnet := h.netQty
    have hsigned := signed_ne_zero side hqty
    have habs := natAbs_signed side qty
    have hmiss := discrepancy_of_enlarged hnet henlarged (h.spanned hopen) hqty hmoves
    have hpos : (0 : Int) < position.netQty.natAbs + qty.toNat := by omega
    have htrunc := abs_sub_mul_tdiv_le
      (position.avgEntryPrice.toInt * position.netQty.natAbs + price.toInt * qty.toNat) hpos
    calc |(ledger.book side price qty).discrepancy position'|
        ≤ |(ledger.book side price qty).discrepancy position' - ledger.discrepancy position|
            + |ledger.discrepancy position| := by
          have htriangle := abs_add_le ((ledger.book side price qty).discrepancy position'
            - ledger.discrepancy position) (ledger.discrepancy position)
          rwa [sub_add_cancel] at htriangle
      _ ≤ (position.netQty.natAbs + qty.toNat - 1) + ledger.slack := by
          rw [hmiss]
          exact add_le_add htrunc hround
      _ = (ledger.book side price qty).slack := by
          simp only [Ledger.book, if_pos henlarged]
          omega
  · rw [discrepancy_of_not_enlarged h.netQty hmoves henlarged]
    simpa [Ledger.book, henlarged] using hround

theorem Moves.netQty_eq (hmoves : Moves position side price qty position') :
    position'.netQty = position.netQty + side.signed qty := by
  cases hmoves with
  | opened hflat => simp [hflat]
  | closed _ hleft => exact hleft.symm
  | enlarged | reduced | flipped => rfl

theorem entryPrices_of_moves (h : Accounts ledger position) (hprice : price ≠ priceInvalid)
    (hqty : qty ≠ 0) (hmoves : Moves position side price qty position') :
    (position'.netQty = 0 → position'.avgEntryPrice = priceInvalid)
      ∧ (position'.netQty ≠ 0 →
        Spanned (ledger.book side price qty).entryPrices position'.avgEntryPrice)
      ∧ ∀ entry ∈ (ledger.book side price qty).entryPrices, entry ≠ priceInvalid := by
  have hsigned := signed_ne_zero side hqty
  have hvalid := h.valid
  have hself : Spanned [price] price := ⟨⟨price, by simp⟩, ⟨price, by simp⟩⟩
  simp only [Ledger.book, Ledger.Enlarged, ← h.netQty]
  cases hmoves with
  | opened hflat => simp [hflat, hsigned, hself, hprice]
  | enlarged hopen hside =>
      have hleft : position.netQty + side.signed qty ≠ 0 := by omega
      have hspanned := (averageEntry_spanned price hqty (h.spanned hopen)).2
      rw [if_neg hleft, if_pos ⟨hopen, hside⟩]
      refine ⟨fun hzero => absurd hzero hleft, fun _ => hspanned, fun entry hmem => ?_⟩
      rcases List.mem_append.mp hmem with hmem | hmem
      · exact hvalid entry hmem
      · rwa [List.mem_singleton.mp hmem]
  | reduced hside hleft hsame =>
      have hopen : position.netQty ≠ 0 := by omega
      rw [if_neg hleft, if_neg fun hboth => hside hboth.2, if_pos ⟨hopen, hsame⟩]
      exact ⟨fun hzero => absurd hzero hleft, fun _ => h.spanned hopen, hvalid⟩
  | closed hopen hleft => simp [hleft]
  | flipped hopen hleft hside =>
      have hopposite : ¬ (0 < position.netQty ↔ 0 < side.signed qty) := by omega
      rw [if_neg hleft, if_neg fun hboth => hopposite hboth.2, if_neg fun hboth => hside hboth.2]
      exact ⟨fun hzero => absurd hzero hleft, fun _ => hself, by simpa using hprice⟩

/-- **An accepted execution** is booked in the ledger. -/
theorem accounts_execution (h : Accounts ledger position) (hprice : price ≠ priceInvalid)
    (hqty : qty ≠ 0) {applied : Position}
    (happly : applyExecution position side price qty = some applied)
    (hupdate : updateUnrealized applied = some position') :
    Accounts (ledger.book side price qty) position' := by
  have hmoves := applyExecution_moves hqty happly
  obtain ⟨hflat, hspanned, hvalid⟩ := entryPrices_of_moves h hprice hqty hmoves
  have hnet : applied.netQty = (ledger.book side price qty).netQty := by
    rw [hmoves.netQty_eq, h.netQty]
    rfl
  have hround := rounding_of_moves h hqty hmoves
  obtain ⟨unrealized, rfl, hmarked⟩ := updateUnrealized_spec hupdate
  exact ⟨hnet, hflat, hspanned, hvalid, hmarked, hround⟩

theorem accounts_mark (h : Accounts ledger position)
    (hupdate : updateUnrealized { position with markPrice := price } = some position') :
    Accounts ledger position' := by
  obtain ⟨unrealized, rfl, hmarked⟩ := updateUnrealized_spec hupdate
  exact ⟨h.netQty, h.flat, h.spanned, h.valid, hmarked, h.rounding⟩

end Step

/-! ### Runs -/

/-- The tracker with the ledger of one ticker. -/
structure Audit (cap : Capacity) where
  pnl : PnLTracker cap := {}
  ledger : Ledger := {}

namespace Audit

variable {cap : Capacity} {ticker : TickerId} {audit : Audit cap}

/-- An execution is booked if the tracker returns true. -/
def step (ticker : TickerId) (audit : Audit cap) (op : Op) : Audit cap where
  pnl := audit.pnl.step op
  ledger :=
    match op with
    | .onExecution other side price qty =>
        if other = ticker ∧ (audit.pnl.apply op).isSome then audit.ledger.book side price qty
        else audit.ledger
    | _ => audit.ledger

theorem pnl_foldl_step (ops : List Op) (audit : Audit cap) :
    (ops.foldl (step ticker) audit).pnl = ops.foldl PnLTracker.step audit.pnl := by
  induction ops generalizing audit with
  | nil => rfl
  | cons op ops ih => exact ih (audit.step ticker op)

/-- What a call can do to the position of the ticker and to its ledger. -/
inductive Books (ticker : TickerId) (op : Op) (ledger : Ledger) :
    Option Position → Option Position → Ledger → Prop
  | untouched (position? : Option Position) : Books ticker op ledger position? position? ledger
  | registered : Books ticker op ledger none (some {}) ledger
  | marked {position position' : Position} {price : Price}
      (hupdate : updateUnrealized { position with markPrice := price } = some position') :
      Books ticker op ledger (some position) (some position') ledger
  | executed {side : Side} {price : Price} {qty : Quantity} {position applied position' : Position}
      (hop : op = .onExecution ticker side price qty) (hprice : price ≠ priceInvalid) (hqty : qty ≠ 0)
      (happly : applyExecution position side price qty = some applied)
      (hupdate : updateUnrealized applied = some position') :
      Books ticker op ledger (some position) (some position') (ledger.book side price qty)

theorem step_books (ticker : TickerId) (audit : Audit cap) (op : Op) :
    Books ticker op audit.ledger (audit.pnl.get ticker) ((audit.step ticker op).pnl.get ticker)
      (audit.step ticker op).ledger := by
  cases happly : audit.pnl.apply op with
  | none =>
      have hsame : audit.step ticker op = audit := by
        cases op <;> simp [step, PnLTracker.step, happly]
      rw [hsame]
      exact .untouched _
  | some pnl' =>
      have hpnl : (audit.step ticker op).pnl = pnl' := by simp [step, PnLTracker.step, happly]
      rw [hpnl]
      cases op with
      | registerTicker other =>
          rw [get_registerTicker happly]
          by_cases hnew : ticker = other ∧ audit.pnl.get other = none
          · rw [if_pos hnew, hnew.1, hnew.2]
            exact .registered
          · rw [if_neg hnew]
            exact .untouched _
      | onMark other price =>
          obtain ⟨position, position', hget, hupdate, hwrites⟩ := onMark_spec happly
          rw [hwrites.get]
          by_cases heq : ticker = other
          · subst heq
            rw [if_pos rfl, hget]
            exact .marked hupdate
          · rw [if_neg heq]
            exact .untouched _
      | onExecution other side price qty =>
          obtain ⟨hprice, hqty, position, applied, position', hget, happlied, hupdate, hwrites⟩ :=
            onExecution_spec happly
          rw [hwrites.get]
          by_cases heq : ticker = other
          · subst heq
            have hbooked : (audit.step ticker (.onExecution ticker side price qty)).ledger =
                audit.ledger.book side price qty := by
              simp [step, happly]
            rw [if_pos rfl, hget, hbooked]
            exact .executed rfl hprice hqty happlied hupdate
          · have hkept : (audit.step ticker (.onExecution other side price qty)).ledger =
                audit.ledger := by
              simp [step, Ne.symm heq]
            rw [if_neg heq, hkept]
            exact .untouched _

/-- Before the ticker is registered nothing is booked. -/
def Sound (ledger : Ledger) : Option Position → Prop
  | none => ledger = {}
  | some position => Accounts ledger position

/-- **Every call** keeps the position of the ticker in line with its ledger. -/
theorem sound_books {op : Op} {ledger ledger' : Ledger} {position? position?' : Option Position}
    (hbooks : Books ticker op ledger position? position?' ledger') (h : Sound ledger position?) :
    Sound ledger' position?' := by
  cases hbooks with
  | untouched => exact h
  | registered =>
      obtain rfl : ledger = {} := h
      exact accounts_fresh
  | marked hupdate => exact accounts_mark h hupdate
  | executed _ hprice hqty happly hupdate => exact accounts_execution h hprice hqty happly hupdate

theorem sound_run (ops : List Op) (h : Sound audit.ledger (audit.pnl.get ticker)) :
    Sound (ops.foldl (step ticker) audit).ledger ((ops.foldl (step ticker) audit).pnl.get ticker) := by
  induction ops generalizing audit with
  | nil => exact h
  | cons op ops ih => exact ih (sound_books (step_books ticker audit op) h)

/-- **Every position** of a tracker agrees with the executions behind it. -/
theorem position_accounted (ticker : TickerId) (ops : List Op) :
    let audit := ops.foldl (step ticker) ({} : Audit cap)
    audit.pnl = ops.foldl PnLTracker.step {}
      ∧ (∀ position, audit.pnl.get ticker = some position →
        (position.netQty = 0 ↔ position.avgEntryPrice = priceInvalid)
          ∧ (position.netQty ≠ 0 → Spanned audit.ledger.entryPrices position.avgEntryPrice
            ∧ ∀ price qty, price ≠ priceInvalid → qty ≠ 0 →
              (Int32.ofInt (averageEntry position price qty)).toInt = averageEntry position price qty
                ∧ Int32.ofInt (averageEntry position price qty) ≠ priceInvalid)
          ∧ Marked position ∧ position.netQty = audit.ledger.netQty)
      ∧ ∀ op, audit.pnl.apply op = none → audit.pnl.step op = audit.pnl := by
  intro audit
  have hsound : Sound audit.ledger (audit.pnl.get ticker) := sound_run ops rfl
  refine ⟨pnl_foldl_step ops {}, fun position hget => ?_, fun op hfalse => ?_⟩
  · rw [hget] at hsound
    have h : Accounts audit.ledger position := hsound
    refine ⟨⟨h.flat, fun hinvalid => ?_⟩, fun hopen => ⟨h.spanned hopen, ?_⟩, h.marked, h.netQty⟩
    · by_contra hopen
      exact (h.spanned hopen).ne_invalid h.valid hinvalid
    · intro price qty hprice hqty
      obtain ⟨hexact, hspanned⟩ := averageEntry_spanned price hqty (h.spanned hopen)
      refine ⟨hexact, hspanned.ne_invalid fun entry hmem => ?_⟩
      rcases List.mem_append.mp hmem with hmem | hmem
      · exact h.valid entry hmem
      · rwa [List.mem_singleton.mp hmem]
  · rw [PnLTracker.step, hfalse, Option.getD_none]

/-! ### Rounding -/

/-- The average is a whole number where the execution enlarges the position. -/
def DividesEvenly (ticker : TickerId) (audit : Audit cap) : Op → Prop
  | .onExecution other side price qty => other = ticker → audit.ledger.Enlarged side qty →
      ∀ position ∈ audit.pnl.get ticker, (position.netQty.natAbs + qty.toNat : Int) ∣
        position.avgEntryPrice.toInt * position.netQty.natAbs + price.toInt * qty.toNat
  | _ => True

instance (audit : Audit cap) : (op : Op) → Decidable (audit.DividesEvenly ticker op)
  | .onExecution .. => inferInstanceAs (Decidable (_ → _ → ∀ position ∈ _, _))
  | .registerTicker _ => isTrue trivial
  | .onMark .. => isTrue trivial

theorem isSome_books {op : Op} {ledger ledger' : Ledger} {position? position?' : Option Position}
    (hbooks : Books ticker op ledger position? position?' ledger') (hsome : position?.isSome) :
    position?'.isSome := by
  cases hbooks with
  | untouched => exact hsome
  | registered | marked | executed => rfl

theorem isSome_run (ops : List Op) (hsome : (audit.pnl.get ticker).isSome) :
    ((ops.foldl (step ticker) audit).pnl.get ticker).isSome := by
  induction ops generalizing audit with
  | nil => exact hsome
  | cons op ops ih => exact ih (isSome_books (step_books ticker audit op) hsome)

/-- Nothing has been lost to rounding. -/
def Exact (ticker : TickerId) (audit : Audit cap) : Prop :=
  Sound audit.ledger (audit.pnl.get ticker)
    ∧ ∀ position ∈ audit.pnl.get ticker, audit.ledger.discrepancy position = 0

theorem exact_step (audit : Audit cap) (op : Op) (h : audit.Exact ticker)
    (heven : audit.DividesEvenly ticker op) : (audit.step ticker op).Exact ticker := by
  have hbooks := step_books ticker audit op
  obtain ⟨hsound, hexact⟩ := h
  refine ⟨sound_books hbooks hsound, ?_⟩
  unfold DividesEvenly at heven
  generalize audit.pnl.get ticker = position? at hbooks hsound hexact heven
  generalize (audit.step ticker op).pnl.get ticker = position?' at hbooks ⊢
  generalize (audit.step ticker op).ledger = ledger' at hbooks ⊢
  cases hbooks with
  | untouched => exact hexact
  | registered =>
      have hzero : audit.ledger = {} := hsound
      rintro position ⟨⟩
      rw [hzero]
      rfl
  | @marked position position' price hupdate =>
      obtain ⟨unrealized, rfl, -⟩ := updateUnrealized_spec hupdate
      rintro _ ⟨⟩
      exact hexact position rfl
  | @executed side price qty position applied position' hop hprice hqty happly hupdate =>
      subst hop
      have hkept := discrepancy_of_dvd hsound hqty (fun henlarged => heven rfl henlarged position rfl)
        (applyExecution_moves hqty happly)
      obtain ⟨unrealized, rfl, -⟩ := updateUnrealized_spec hupdate
      rintro _ ⟨⟩
      exact hkept.trans (hexact position rfl)

/-- **The realised result** misses the cash and the open position at its average by less than one unit
per share of every position that was enlarged, and not at all where every average was a whole number. -/
theorem realized_within_rounding (pnl : PnLTracker cap) (hfresh : pnl.get ticker = some {})
    (ops : List Op) :
    let audit := ops.foldl (step ticker) ⟨pnl, {}⟩
    ∃ position, audit.pnl.get ticker = some position
      ∧ |position.realizedPnl
          - (audit.ledger.cash + position.netQty * position.avgEntryPrice.toInt)| ≤ audit.ledger.slack
      ∧ (Run.Along (Run.total (step ticker)) (DividesEvenly ticker) ⟨pnl, {}⟩ ops →
        position.realizedPnl = audit.ledger.cash + position.netQty * position.avgEntryPrice.toInt)
      ∧ (position.netQty = 0 → |position.realizedPnl - audit.ledger.cash| ≤ audit.ledger.slack) := by
  intro audit
  have hstart : Sound ({} : Ledger) (pnl.get ticker) := by
    rw [hfresh]
    exact accounts_fresh
  have hsound : Sound audit.ledger (audit.pnl.get ticker) := sound_run ops hstart
  obtain ⟨position, hget⟩ : ∃ position, audit.pnl.get ticker = some position := by
    apply Option.isSome_iff_exists.mp
    exact isSome_run ops (by rw [hfresh]; rfl)
  rw [hget] at hsound
  have hround : |audit.ledger.discrepancy position| ≤ audit.ledger.slack := hsound.rounding
  refine ⟨position, hget, hround, fun heven => ?_, fun hflat => ?_⟩
  · have hexact : audit.Exact ticker := by
      refine Run.invariant_total (Exact ticker) exact_step ⟨hstart, ?_⟩ heven
      intro position hmem
      obtain rfl : {} = position := Option.some.inj (hfresh.symm.trans hmem)
      rfl
    exact sub_eq_zero.mp (hexact.2 position hget)
  · simpa [Ledger.discrepancy, hflat] using hround

/-- A position is opened, enlarged at a price that does not divide, and closed. -/
def roundTrip : List Op :=
  [.onExecution 7 .buy 10 3, .onMark 7 12, .onExecution 7 .buy 11 2, .onExecution 7 .sell 12 5]

theorem realized_within_rounding_roundTrip :
    let audit := roundTrip.foldl (step 7) ⟨(⟨[⟨7, {}⟩]⟩ : PnLTracker ⟨1, 1, 1⟩), {}⟩
    audit.ledger.cash = 8 ∧ audit.ledger.slack = 4
      ∧ ∃ position, audit.pnl.get 7 = some position ∧ position.realizedPnl = 10
        ∧ |position.realizedPnl - audit.ledger.cash| ≤ audit.ledger.slack := by
  intro audit
  have hrealized : (audit.pnl.get 7).any (fun position =>
      position.realizedPnl = 10 && position.netQty = 0) = true := by decide +kernel
  have hfresh : (⟨[⟨7, {}⟩]⟩ : PnLTracker ⟨1, 1, 1⟩).get 7 = some {} := by decide
  obtain ⟨position, hget, -, -, hflat⟩ := realized_within_rounding _ hfresh roundTrip
  rw [hget] at hrealized
  obtain ⟨hrealized, hnet⟩ : position.realizedPnl = 10 ∧ position.netQty = 0 := by
    simpa using hrealized
  exact ⟨by decide +kernel, by decide +kernel, position, hget, hrealized, hflat hnet⟩

end Audit

end PnLTracker

end AlphaTrader
