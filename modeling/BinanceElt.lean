import BinanceElt.Sql.Relation
import BinanceElt.Sql.Numeric
import BinanceElt.Sql.Window
import BinanceElt.Sql.Merge
import BinanceElt.Sql.Provenance
import BinanceElt.Sql.RowOrder
import BinanceElt.Sql.Calendar
import BinanceElt.Sql.Text
import BinanceElt.Sql.Gregorian
import BinanceElt.Service.Program
import BinanceElt.Service.Cost
import BinanceElt.Service.Execution
import BinanceElt.Service.Interleaving
import BinanceElt.Service.TaskGraph
import BinanceElt.Python.Json
import BinanceElt.Python.Url
import BinanceElt.Models.Sources
import BinanceElt.Models.DimDate
import BinanceElt.Models.DimTickers
import BinanceElt.Models.FactTickerPrices
import BinanceElt.Models.CurrentPortfolio
import BinanceElt.Models.FactDailyTickersQuantity
import BinanceElt.Models.FactDailyAccountValue
import BinanceElt.Models.SurrogateKey
import BinanceElt.Models.KeyText
import BinanceElt.Models.Run
import BinanceElt.Models.History
import BinanceElt.Models.RunScript
import BinanceElt.Models.Valuation
import BinanceElt.Models.PriceRuns
import BinanceElt.Lambda.Services
import BinanceElt.Lambda.Schemas
import BinanceElt.Lambda.Utils
import BinanceElt.Lambda.Requests
import BinanceElt.Lambda.Received
import BinanceElt.Lambda.Main
import BinanceElt.Verified.DistinctDays
import BinanceElt.Verified.TickerPricesRefresh
import BinanceElt.Verified.QuantityMerge
import BinanceElt.Verified.TickersQuantityRefresh
import BinanceElt.Verified.ValueChanges
import BinanceElt.Verified.ReferentialIntegrity
import BinanceElt.Verified.WalletValue
import BinanceElt.Verified.Rerun
import BinanceElt.Verified.ZeroValues
import BinanceElt.Verified.SilentLoss
import BinanceElt.Verified.Retries
import BinanceElt.Verified.DailyQuantity
import BinanceElt.Verified.QuantityHistory
import BinanceElt.Verified.PriceChanges
import BinanceElt.Verified.TickerIds
import BinanceElt.Verified.RoundingError
import BinanceElt.Verified.UniqueKey
import BinanceElt.Verified.WindowEdge
import BinanceElt.Verified.SignedRequest
import BinanceElt.Verified.UnambiguousKeys
import BinanceElt.Verified.ReceivedParams
import BinanceElt.Verified.ScriptRuns
import BinanceElt.Verified.SecretKey
import BinanceElt.Verified.SelfStabilising
import BinanceElt.Verified.Resources
import BinanceElt.Verified.Concurrent
import BinanceElt.Verified.StoredRows
import BinanceElt.Verified.Ingestion
import BinanceElt.Verified.Threads
import BinanceElt.Verified.LastWriter
import BinanceElt.Verified.RowOrder
import BinanceElt.Verified.DateDimension
