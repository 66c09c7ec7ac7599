import Sorm.Generators

/-!
# The source generator

`c_generate.c`: the text of `X_sorm.c`. The rounds of `c_generate_func_delete` and
`c_generate_func_select` close the function's block behind the `switch`, also where that has printed
no function.
-/

namespace Sorm

open CReader

def fgets (size : ℕ) : Text → Text
  | [] => []
  | c :: z =>
      match size with
      | 0 | 1 => []
      | size + 2 => if c = '\n' then [c] else c :: fgets (size + 1) z

/-- The statement at the head of a file as both generators read it: the line without its last
byte, if there is one. -/
def readStatement (file : Text) : Option Text :=
  if file = [] then none
  else some ((fgets (sqlStmtMaxLen + 1) file).takeWhile (· ≠ '\x00')).dropLast

def includeHeader (name : Template) : Template :=
  fprintf "#include \"%s\"\n" [fprintf "%s_sorm.h" [name]]

def includeRound (column : ColumnDesc) : Option Template :=
  some (if column.isForeignKey then includeHeader [.hole .foreignTableName] else [])

def cGenerateIncludes : List Part := [.once (includeHeader tableName), .each includeRound]

def columnDescOpening : Template :=
  fprintf "static sorm_column_descriptor_t %s_columns_descriptor[%d] =\n\x7b\n"
    [tableName, [.hole .columnsNum]]

def columnDescRound : Template :=
  fprintf "    \x7b
        \"%s\",
        %d,
        %s,
        %s,
        %s,
        %s__%s__MAX_LEN,
        SORM_OFFSET(%s_t, %s),
        %d,
        \"%s\",
        \"%s\",
    \x7d,\n"
    [columnName, columnIndex, [.hole .type], [.hole .constraint], [.hole .mem],
      upperTableName, upperColumnName, tableName, columnName, [.hole .isForeignKey],
      [.hole .foreignTableName], [.hole .foreignColumnName]]

def columnDescClosing : Template := fprintf "\x7d;\n\n" []

def cGenerateColumnDesc : List Part :=
  [.once columnDescOpening, .each fun _ => some columnDescRound, .once columnDescClosing]

/-- `PK_index`; `SORM_NO_PK` is printed with a sign. -/
def pkIndexArg : Option ℕ → Template
  | none => [.char '-', .char '1']
  | some _ => [.hole .pkIndex]

def deviceDesc (pkIndex : Option ℕ) : Template :=
  fprintf "sorm_table_descriptor_t %s_table_descriptor =\n\x7b\n" [tableName] ++
    fprintf "    \"%s\",
    SORM_SIZE(%s_t),
    %d,
    %d,
    \"%s\",
    %s_columns_descriptor,\n"
      [tableName, tableName, [.hole .columnsNum], pkIndexArg pkIndex, [.hole .createSql],
        tableName] ++
    fprintf "\x7d;\n\n" []

def cGenerateDeviceDesc (pkIndex : Option ℕ) : List Part := [.once (deviceDesc pkIndex)]

def cGenerateFuncToString : List Part :=
  [.once
    (fprintf "char* %s_to_string(\n        %s_t *%s, char *string, int len)\n\x7b\n"
      [tableName, tableName, tableName] ++
      fprintf "    return sorm_to_string((sorm_table_descriptor_t*)%s, string, len);\n"
        [tableName] ++
      fprintf "\x7d\n\n" [])]

def cGenerateFuncGetDesc : List Part :=
  [.once
    (fprintf "sorm_table_descriptor_t* %s_get_desc()\n\x7b\n" [tableName] ++
      fprintf "    return &%s_table_descriptor;\n" [tableName] ++
      fprintf "\x7d\n\n" [])]

def cGenerateFuncNew : List Part :=
  [.once
    (fprintf "%s_t* %s_new(const sorm_allocator_t *allocator)\n\x7b\n" [tableName, tableName] ++
      fprintf "    return (%s_t *)sorm_new(allocator, &%s_table_descriptor);\n"
        [tableName, tableName] ++
      fprintf "\x7d\n\n" []),
    .once
    (fprintf "%s_t* %s_new_array(const sorm_allocator_t *allocator, int num)\n\x7b\n"
      [tableName, tableName] ++
      fprintf "    return (%s_t *)sorm_new_array(allocator, &%s_table_descriptor, num);\n"
        [tableName, tableName] ++
      fprintf "\x7d\n\n" [])]

def cGenerateFuncFree : List Part :=
  [.once
    (fprintf "void %s_free(const sorm_allocator_t *allocator, %s_t *%s)\n\x7b\n"
      [tableName, tableName, tableName] ++
      fprintf "    sorm_free(allocator, (sorm_table_descriptor_t *)%s);\n" [tableName] ++
      fprintf "\x7d\n\n" []),
    .once
    (fprintf "void %s_free_array(const sorm_allocator_t *allocator, %s_t *%s, int n)\n\x7b\n"
      [tableName, tableName, tableName] ++
      fprintf "    sorm_free_array(allocator, (sorm_table_descriptor_t *)%s, n);\n" [tableName] ++
      fprintf "\x7d\n\n" [])]

def createTableFunc : Template :=
  fprintf "int %s_create_table(const sorm_connection_t *conn)\n\x7b\n" [tableName] ++
    fprintf "    char *sql_stmt = \"%s\";\n\n" [[.hole .createSql]] ++
    fprintf "    return sorm_run_stmt(conn, sql_stmt, SORM_RWLOCK_WRITE);\n" [] ++
    fprintf "\x7d\n\n" []

def cGenerateFuncCreateTable : List Part := [.once createTableFunc]

def cGenerateFuncDeleteTable : List Part :=
  [.once
    (fprintf "int %s_delete_table(const sorm_connection_t *conn)\n\x7b\n" [tableName] ++
      fprintf "    return sorm_delete_table(conn, &%s_table_descriptor);" [tableName] ++
      fprintf "\x7d\n\n" [])]

def cGenerateFuncSave : List Part :=
  [.once
    (fprintf "int %s_insert(sorm_connection_t *conn, %s_t *%s)\n\x7b\n"
      [tableName, tableName, tableName] ++
      fprintf "    return sorm_insert(conn, (sorm_table_descriptor_t*)%s);\n" [tableName] ++
      fprintf "\x7d\n\n" []),
    .once
    (fprintf "int %s_replace(sorm_connection_t *conn, %s_t *%s)\n\x7b\n"
      [tableName, tableName, tableName] ++
      fprintf "    return sorm_replace(conn, (sorm_table_descriptor_t*)%s);\n" [tableName] ++
      fprintf "\x7d\n\n" [])]

def cGenerateFuncUpdate : List Part :=
  [.once
    (fprintf "int %s_update(sorm_connection_t *conn, %s_t *%s)\n\x7b\n"
      [tableName, tableName, tableName] ++
      fprintf "    return sorm_update(conn, (sorm_table_descriptor_t*)%s);\n" [tableName] ++
      fprintf "\x7d\n\n" [])]

def cSetRound (column : ColumnDesc) : Option Template :=
  (· ++ fprintf "\x7d\n\n" []) <$>
    match column.type with
    | .int => some
        (fprintf "int %s_set_%s(%s_t *%s, int %s)\n\x7b\n"
          [tableName, columnName, tableName, tableName, columnName] ++
          fprintf "    return sorm_set_column_value((sorm_table_descriptor_t*)%s, %d, &%s, 0);\n"
            [tableName, columnIndex, columnName])
    | .int64 => some
        (fprintf "int %s_set_%s(%s_t *%s, int64_t %s)\n\x7b\n"
          [tableName, columnName, tableName, tableName, columnName] ++
          fprintf "    return sorm_set_column_value((sorm_table_descriptor_t*)%s, %d, &%s, 0);\n"
            [tableName, columnIndex, columnName])
    | .text => some
        (fprintf "int %s_set_%s(%s_t *%s, const char* %s)\n\x7b\n"
          [tableName, columnName, tableName, tableName, columnName] ++
          fprintf "    return sorm_set_column_value((sorm_table_descriptor_t*)%s, %d, %s, 0);\n"
            [tableName, columnIndex, columnName])
    | .double => some
        (fprintf "int %s_set_%s(%s_t *%s, double %s)\n\x7b\n"
          [tableName, columnName, tableName, tableName, columnName] ++
          fprintf "    return sorm_set_column_value((sorm_table_descriptor_t*)%s, %d, &%s, 0);\n"
            [tableName, columnIndex, columnName])
    | .blob => some
        (fprintf "int %s_set_%s(%s_t *%s, const void* %s, int len)\n\x7b\n"
          [tableName, columnName, tableName, tableName, columnName] ++
          fprintf "    return sorm_set_column_value((sorm_table_descriptor_t*)%s, %d, %s, len);\n"
            [tableName, columnIndex, columnName])
    | .unknown _ => none

def cGenerateFuncSetMem : List Part := [.each cSetRound]

def cDeleteRound (column : ColumnDesc) : Option Template :=
  if sormIsUniqueColumn column.constraint then
    (· ++ fprintf "\x7d\n\n" []) <$>
      match column.type with
      | .int => some
          (fprintf "int %s_delete_by_%s(const sorm_connection_t *conn, int %s)\n\x7b\n"
            [tableName, columnName, columnName] ++
            fprintf "    return sorm_delete_by_column(
            conn, &%s_table_descriptor, %d, (void *)&%s);\n"
              [tableName, columnIndex, columnName])
      | .int64 => some
          (fprintf "int %s_delete_by_%s(const sorm_connection_t *conn, int64_t %s)\n\x7b\n"
            [tableName, columnName, columnName] ++
            fprintf "    return sorm_delete_by_column(
            conn, &%s_table_descriptor, %d, (void *)&%s);\n"
              [tableName, columnIndex, columnName])
      | .text => some
          (fprintf "int %s_delete_by_%s(const sorm_connection_t *conn, char* %s)\n\x7b\n"
            [tableName, columnName, columnName] ++
            fprintf "    return sorm_delete_by_column(
            conn, &%s_table_descriptor, %d, (void *)%s);\n"
              [tableName, columnIndex, columnName])
      | .double => some
          (fprintf "int %s_delete_by_%s(const sorm_connection_t *conn, double %s)\n\x7b\n"
            [tableName, columnName, columnName] ++
            fprintf "    return sorm_delete_by_column(
            conn, &%s_table_descriptor, %d, (void *)&%s);\n"
              [tableName, columnIndex, columnName])
      | .blob => some []
      | .unknown _ => none
  else some []

def cDeleteFuncs : List Part :=
  [.once
    (fprintf "int %s_delete(const sorm_connection_t *conn, const %s_t *%s)\n\x7b\n"
      [tableName, tableName, tableName] ++
      fprintf "    return sorm_delete(conn, (sorm_table_descriptor_t *)%s);\n" [tableName] ++
      fprintf "\x7d\n\n" []),
    .once
    (fprintf "int %s_delete_by(const sorm_connection_t *conn, const char *filter)\n\x7b\n"
      [tableName] ++
      fprintf "    return sorm_delete_by(conn, &%s_table_descriptor, filter);\n" [tableName] ++
      fprintf "\x7d\n\n" [])]

def cGenerateFuncDelete : List Part := cDeleteFuncs ++ [.each cDeleteRound]

def selectByCallArgs : List Template := [tableName, columnIndex, columnName, tableName]

def selectByHeadArgs : List Template := [tableName, columnName, columnName, tableName, tableName]

def cSelectRound (column : ColumnDesc) : Option Template :=
  if sormIsUniqueColumn column.constraint then
    (· ++ fprintf "\x7d\n\n" []) <$>
      match column.type with
      | .int => some
          (fprintf "int %s_select_by_%s(
        const sorm_connection_t *conn,
        const sorm_allocator_t *allocator,
        const char *column_names, int %s,
        %s_t **%s)
\x7b\n"
            selectByHeadArgs ++
            fprintf "    return sorm_select_one_by_column(
            conn, allocator, &%s_table_descriptor, column_names,
            %d, (void *)&%s, (sorm_table_descriptor_t **)%s);\n"
              selectByCallArgs)
      | .int64 => some
          (fprintf "int %s_select_by_%s(
        const sorm_connection_t *conn,
        const sorm_allocator_t *allocator,
        const char *column_names, int64_t %s,
        %s_t **%s)
\x7b\n"
            selectByHeadArgs ++
            fprintf "    return sorm_select_one_by_column(
            conn, allocator, &%s_table_descriptor, column_names,
            %d, (void *)&%s, (sorm_table_descriptor_t **)%s);\n"
              selectByCallArgs)
      | .text => some
          (fprintf "int %s_select_by_%s(
        const sorm_connection_t *conn,
        const sorm_allocator_t *allocator,
        const char *column_names,const char* %s,
        %s_t **%s)
\x7b\n"
            selectByHeadArgs ++
            fprintf "    return sorm_select_one_by_column(
            conn, allocator, &%s_table_descriptor, column_names,
            %d, (void *)%s, (sorm_table_descriptor_t **)%s);\n"
              selectByCallArgs)
      | .double => some
          (fprintf "int %s_select_by_%s(
        const sorm_connection_t *conn,
        const sorm_allocator_t *allocator,
        const char *column_names, double* %s,
        %s_t **%s)
\x7b\n"
            selectByHeadArgs ++
            fprintf "    return sorm_select_one_by_column(
            conn, allocator, &%s_table_descriptor, column_names,
            %d, (void *)&%s, (sorm_table_descriptor_t **)%s);\n"
              selectByCallArgs)
      | .blob => some []
      | .unknown _ => none
  else some []

def cSelectFuncs : List Part :=
  [.once
      (fprintf "int %s_select_some_array_by(
        const sorm_connection_t *conn,
        const sorm_allocator_t *allocator,
        const char *column_names, const char *filter,
        int *n, %s_t **%ss_array)
\x7b
    return sorm_select_some_array_by(
            conn, allocator, &%s_table_descriptor, column_names,
            filter, n, (sorm_table_descriptor_t **)%ss_array);
\x7d\n\n"
        [tableName, tableName, tableName, tableName, tableName]),
    .once
      (fprintf "int %s_select_some_list_by(
        const sorm_connection_t *conn,
        const sorm_allocator_t *allocator,
        const char *column_names, const char *filter,
        int *n, sorm_list_t **%ss_list_head)
\x7b
    return sorm_select_some_list_by(
            conn, allocator, &%s_table_descriptor, column_names,
            filter, n, %ss_list_head);
\x7d\n\n"
        [tableName, tableName, tableName, tableName]),
    .once
      (fprintf "int %s_select_all_array_by(
        const sorm_connection_t *conn,
        const sorm_allocator_t *allocator,
        const char *column_names, const char *filter,
        int *n, %s_t **%ss_array)
\x7b
    return sorm_select_all_array_by(
            conn, allocator, &%s_table_descriptor, column_names,
            filter, n, (sorm_table_descriptor_t **)%ss_array);
\x7d\n\n"
        [tableName, tableName, tableName, tableName, tableName]),
    .once
      (fprintf "int %s_select_all_list_by(
        const sorm_connection_t *conn,
        const sorm_allocator_t *allocator,
        const char *column_names, const char *filter,
        int *n, sorm_list_t **%ss_list_head)
\x7b
    return sorm_select_all_list_by(
            conn, allocator, &%s_table_descriptor, column_names,
            filter, n, %ss_list_head);
\x7d\n\n"
        [tableName, tableName, tableName, tableName]),
    .once
      (fprintf "int %s_select_iterate_by_open(
        const sorm_connection_t *conn,
        const sorm_allocator_t *allocator,
        const char *column_names, const char *filter,
        sorm_iterator_t **iterator)
\x7b
    return sorm_select_iterate_by_open(
            conn, allocator, &%s_table_descriptor, column_names,
            filter, iterator);
\x7d\n\n"
        [tableName, tableName]),
    .once
      (fprintf "int %s_select_iterate_by(
        sorm_iterator_t *iterator, %s_t **%s)
\x7b
    return sorm_select_iterate_by(
            iterator, (sorm_table_descriptor_t **)%s);
\x7d\n\n"
        [tableName, tableName, tableName, tableName])]

def cGenerateFuncSelect : List Part := .each cSelectRound :: cSelectFuncs

def cGenerateFuncIndex : List Part :=
  [.once
    (fprintf "int %s_create_index(
        const sorm_connection_t *conn, char *columns_name)
\x7b
    return sorm_create_index(conn, &%s_table_descriptor, columns_name);
\x7d\n\n"
      [tableName, tableName]),
    .once
    (fprintf "int %s_drop_index(
        const sorm_connection_t *conn, char *columns_name)
\x7b
    return sorm_drop_index(conn, columns_name);
\x7d\n\n"
      [tableName])]

def cGenerateFuncs : List Part :=
  cGenerateFuncToString ++ cGenerateFuncGetDesc ++ cGenerateFuncNew ++ cGenerateFuncFree

def cGenerateFirst (pkIndex : Option ℕ) : List Part :=
  cGenerateIncludes ++ (cGenerateColumnDesc ++ (cGenerateDeviceDesc pkIndex ++ cGenerateFuncs))

def cGenerateRest : List Part :=
  cGenerateFuncDeleteTable ++ cGenerateFuncSave ++ cGenerateFuncUpdate ++ cGenerateFuncSetMem ++
    cGenerateFuncDelete ++ cGenerateFuncSelect ++ cGenerateFuncIndex

def printCreateTable (t : GenTable) (inFile : Option Text) : Option Text :=
  match inFile.bind readStatement with
  | none => some []
  | some sqlStmt => printParts { t with createSql := sqlStmt } cGenerateFuncCreateTable

/-- The text of the source, where `inFile` is what is read from the input file again. -/
def cGenerate (t : GenTable) (inFile : Option Text) : Option Text := do
  let first ← printParts t (cGenerateFirst t.pkIndex)
  let createTable ← printCreateTable t inFile
  let rest ← printParts t cGenerateRest
  return first ++ createTable ++ rest

end Sorm
