import BinanceElt.Lambda.Services

/-!
# Table schemas

The schemas of `schemas.py`, with which a missing table is created.
-/

namespace BinanceElt

/-- `bigquery.SchemaField(name, fieldType)`: nullable unless said otherwise. -/
private def nullable (name fieldType : String) : SchemaField := ⟨name, fieldType, "NULLABLE"⟩

private def required (name fieldType : String) : SchemaField := ⟨name, fieldType, "REQUIRED"⟩

def tickerPricesSchema : List SchemaField :=
  [required "id" "STRING",
    nullable "symbol" "STRING",
    nullable "price" "FLOAT",
    required "timestamp" "TIMESTAMP"]

def tickerPriceChangeSchema : List SchemaField :=
  [required "id" "STRING",
    nullable "symbol" "STRING",
    nullable "priceChange" "FLOAT",
    nullable "priceChangePercent" "FLOAT",
    nullable "weightedAvgPrice" "FLOAT",
    nullable "prevClosePrice" "FLOAT",
    nullable "lastPrice" "FLOAT",
    nullable "lastQty" "FLOAT",
    nullable "bidPrice" "FLOAT",
    nullable "bidQty" "FLOAT",
    nullable "askPrice" "FLOAT",
    nullable "askQty" "FLOAT",
    nullable "openPrice" "FLOAT",
    nullable "highPrice" "FLOAT",
    nullable "lowPrice" "FLOAT",
    nullable "volume" "FLOAT",
    nullable "quoteVolume" "FLOAT",
    nullable "openTime" "INTEGER",
    nullable "closeTime" "INTEGER",
    nullable "firstId" "INTEGER",
    nullable "lastId" "INTEGER",
    nullable "count" "INTEGER",
    required "timestamp" "TIMESTAMP"]

def accountSnaphsoteSchema : List SchemaField :=
  [required "id" "STRING",
    nullable "asset" "STRING",
    nullable "free" "FLOAT",
    nullable "locked" "FLOAT",
    required "timestamp" "TIMESTAMP"]

end BinanceElt
