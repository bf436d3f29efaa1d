import Holdings.Decimal.Style
import Holdings.Instant.Printer
import Holdings.Session

/-!
# Messages: faults in words

One function for each type of fault. Numbers stand in the plain style, except in a cost model that is
spelled out.
-/

namespace Holdings

variable {α : Type} [Numeral α]

/-- A number in a message. -/
def numberText (x : α) : String := Style.plain.write x

/-- The direction of a position. -/
def directionText (long : Bool) : String := if long then "long" else "short"

/-- Why exit levels are refused. -/
def LevelFault.reason : LevelFault α → String
  | .price leg p => leg.label ++ " must be finite and non-negative, got " ++ numberText p
  | .flat asset => "cannot attach exit levels to flat position in " ++ asset
  | .straddle sl tp basis long =>
    "stop_loss " ++ numberText sl ++ " and take_profit " ++ numberText tp
      ++ " do not straddle cost basis " ++ numberText basis ++ " for a " ++ directionText long
      ++ " position"

/-- Why a fill is refused. -/
def FillFault.reason : FillFault α → String
  | .quantity q => "quantity must be finite, got " ++ numberText q
  | .zeroQuantity => "zero quantity"
  | .dust q minimum =>
    "quantity " ++ numberText q ++ " is below the minimum " ++ numberText minimum
      ++ "; per-unit cost is undefined"
  | .price p => "price must be finite and non-negative, got " ++ numberText p
  | .cost c => "cost must be finite, got " ++ numberText c

/-- Why a change of a position is refused, in full. -/
def Fault.message : Fault α → String
  | .levels cause => "invalid configuration: " ++ cause.reason
  | .fill cause => "invalid fill: " ++ cause.reason
  | .mark price =>
    "invalid mark price " ++ numberText price ++ ": must be finite and non-negative"
  | .asset expected actual =>
    "asset mismatch: position holds " ++ expected ++ ", got " ++ actual
  | .ratio r =>
    "invalid corporate action: split ratio must be finite and positive, got " ++ numberText r

/-- What is wrong with an order. -/
def OrderFlaw.reason : OrderFlaw α → String
  | .quantity q => "quantity must be finite and positive, got " ++ numberText q
  | .price p => "prices must be finite and positive, got " ++ numberText p
  | .asset order bar => "order for " ++ order ++ " decided against a " ++ bar ++ " bar"

/-- Why an order is refused, in full. -/
def OrderFault.message (f : OrderFault α) : String :=
  "invalid order #" ++ toString f.id ++ ": " ++ f.flaw.reason

/-- A cost model spelled out, with its numbers in the detailed style. -/
def CostModel.spelled : CostModel α → String
  | .free => "None"
  | .perShare amount minimum =>
    "PerShare \x7b amount: " ++ Style.detail.write amount ++ ", minimum: "
      ++ Style.detail.write minimum ++ " \x7d"
  | .perTrade amount => "PerTrade \x7b amount: " ++ Style.detail.write amount ++ " \x7d"
  | .basisPoints rate => "Bps \x7b bps: " ++ Style.detail.write rate ++ " \x7d"

/-- Why a policy is refused, in full. -/
def PolicyFault.message : PolicyFault α → String
  | .minimum x =>
    "invalid config: min_fill_quantity must be finite and positive, got " ++ numberText x
  | .precision x =>
    "invalid config: rounding precision must be finite and positive, got " ++ numberText x
  | .costs model =>
    "invalid config: cost parameters must be finite and non-negative: " ++ model.spelled

/-- What is wrong with a record. -/
def RecordFlaw.reason : RecordFlaw α → String
  | .amount x => "amount must be finite and non-zero, got " ++ numberText x
  | .basis x => "non-finite cost basis " ++ numberText x
  | .lastPrice x => "invalid last sale price " ++ numberText x
  | .levels cause => (Fault.levels cause).message
  | .firedWithoutLevel => "fired trigger without an exit level"
  | .duplicate => "duplicate record"

/-- Why a record is refused, in full. -/
def RecordFault.message (f : RecordFault α) : String :=
  "invalid position record for " ++ f.asset ++ ": " ++ f.flaw.reason

/-- Why an event is refused, in full. -/
def Rejection.message : Rejection α → String
  | .position fault => fault.message
  | .order fault => fault.message
  | .bar asset time =>
    "bar for " ++ asset ++ " at " ++ time.display ++ " has inconsistent OHLC"
  | .dividend asset perShare =>
    "dividend for " ++ asset ++ " is not finite: " ++ numberText perShare

/-- What ended a strict run. -/
def Abort.message (a : Abort α) : String :=
  "event " ++ toString a.index ++ " for " ++ a.asset ++ " rejected: " ++ a.cause.message

end Holdings
