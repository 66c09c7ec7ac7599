import Sorm.ArrayAllocation
import Sorm.Blocks
import Sorm.BufferSafety
import Sorm.ByteMemory
import Sorm.CFunctions
import Sorm.CGenerate
import Sorm.CReader
import Sorm.Close
import Sorm.ColumnErrors
import Sorm.ColumnFilter
import Sorm.ColumnItems
import Sorm.ColumnMapping
import Sorm.ColumnReading
import Sorm.Columns
import Sorm.CreateTable
import Sorm.Decoding
import Sorm.Discipline
import Sorm.DisciplineRun
import Sorm.DisciplineSelect
import Sorm.DoubleFilter
import Sorm.EmbeddedSql
import Sorm.Filter
import Sorm.FinalizedOnce
import Sorm.FunctionNames
import Sorm.FunctionsAgree
import Sorm.Generate
import Sorm.GeneratedFiles
import Sorm.GeneratedFunctions
import Sorm.GeneratedHeader
import Sorm.GeneratedMacros
import Sorm.GeneratedSource
import Sorm.GeneratedStruct
import Sorm.GeneratedTable
import Sorm.GeneratedText
import Sorm.GeneratedWrappers
import Sorm.Generators
import Sorm.Handler
import Sorm.HeaderGenerate
import Sorm.HeaderStruct
import Sorm.HiddenFields
import Sorm.IndexNames
import Sorm.Interaction
import Sorm.Interface
import Sorm.IntrusiveList
import Sorm.IteratorMemory
import Sorm.LinkedList
import Sorm.LiteralTokens
import Sorm.LockBalance
import Sorm.MutualExclusion
import Sorm.NestedTransactions
import Sorm.ObjectBytes
import Sorm.Objects
import Sorm.Operations
import Sorm.Outcome
import Sorm.Ownership
import Sorm.ParsedTables
import Sorm.ParserLex
import Sorm.ParserYacc
import Sorm.PrimaryKey
import Sorm.Printing
import Sorm.QuoteBounds
import Sorm.QuoteDoubling
import Sorm.Recorder
import Sorm.RejectedValues
import Sorm.ResultRows
import Sorm.RoundTrip
import Sorm.RowStatements
import Sorm.SaveRun
import Sorm.Select
import Sorm.SelectAnswers
import Sorm.SelectBlocks
import Sorm.SelectExclusion
import Sorm.SelectLeaks
import Sorm.SelectOperations
import Sorm.SelectOutputs
import Sorm.SelectPaths
import Sorm.SelectReleases
import Sorm.SelectRequests
import Sorm.SelectRows
import Sorm.SelectRuns
import Sorm.SemaphoreSet
import Sorm.SqlRows
import Sorm.SqlSchema
import Sorm.Statement
import Sorm.StatementBuffers
import Sorm.StatementBuild
import Sorm.StatementLeaks
import Sorm.StatementText
import Sorm.Statements
import Sorm.Storage
import Sorm.StringLiterals
import Sorm.StructLayout
import Sorm.TableParser
import Sorm.TableSchema
import Sorm.Transaction
import Sorm.TransactionCounter
import Sorm.TransactionNesting
import Sorm.Transducers
import Sorm.Trimming
import Sorm.Types
import Sorm.WholeStatement
import Sorm.WrapperNames
import Sorm.WriteBack
